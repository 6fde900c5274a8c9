import ShaderBridge.Fault
import ShaderBridge.Tree.Vocabulary

/-!
# Syntax trees

A tree is a value: nothing, a truth value, an integer, a text, a list, a tuple, or a node with
named fields.  Any field may hold any value, so the operations on trees say what they do on every
value: which values count as set, which can be walked through, which can serve as a key, and which
are equal.

The accessors that generators recurse through return the part together with the bound on its
size that makes the recursion end.
-/

namespace ShaderBridge

/-- A value of a syntax tree. -/
inductive Tree where
  | absent
  | flag (b : Bool)
  | number (n : Int)
  | text (s : Text)
  | list (items : List Tree)
  | tuple (items : List Tree)
  | node (kind : NodeKind) (fields : List (Field × Tree))
deriving Inhabited, Repr

namespace Tree

/-! ## §1 Equality of trees -/

mutual

/-- Decides whether two trees are the same. -/
def decideEq : (a b : Tree) → Decidable (a = b)
  | absent, b => by cases b <;> first | exact isTrue rfl | exact isFalse nofun
  | flag x, b => by
    cases b with
    | flag y => exact decidable_of_iff (x = y) (by simp)
    | _ => exact isFalse nofun
  | number x, b => by
    cases b with
    | number y => exact decidable_of_iff (x = y) (by simp)
    | _ => exact isFalse nofun
  | text x, b => by
    cases b with
    | text y => exact decidable_of_iff (x = y) (by simp)
    | _ => exact isFalse nofun
  | list xs, b => by
    cases b with
    | list ys => exact @decidable_of_iff _ (xs = ys) (by simp) (decideEqList xs ys)
    | _ => exact isFalse nofun
  | tuple xs, b => by
    cases b with
    | tuple ys => exact @decidable_of_iff _ (xs = ys) (by simp) (decideEqList xs ys)
    | _ => exact isFalse nofun
  | node k fs, b => by
    cases b with
    | node l gs =>
      exact @decidable_of_iff _ (k = l ∧ fs = gs) (by simp)
        (@instDecidableAnd _ _ _ (decideEqFields fs gs))
    | _ => exact isFalse nofun

/-- Decides whether two lists of trees are the same. -/
def decideEqList : (xs ys : List Tree) → Decidable (xs = ys)
  | [], [] => isTrue rfl
  | [], _ :: _ => isFalse nofun
  | _ :: _, [] => isFalse nofun
  | x :: xs, y :: ys =>
    @decidable_of_iff _ (x = y ∧ xs = ys) (by simp)
      (@instDecidableAnd _ _ (decideEq x y) (decideEqList xs ys))

/-- Decides whether two lists of fields are the same. -/
def decideEqFields : (fs gs : List (Field × Tree)) → Decidable (fs = gs)
  | [], [] => isTrue rfl
  | [], _ :: _ => isFalse nofun
  | _ :: _, [] => isFalse nofun
  | (f, x) :: fs, (g, y) :: gs =>
    @decidable_of_iff _ (f = g ∧ x = y ∧ fs = gs) (by simp [and_assoc])
      (@instDecidableAnd _ _ _
        (@instDecidableAnd _ _ (decideEq x y) (decideEqFields fs gs)))

end

instance : DecidableEq Tree := decideEq

/-! ## §2 What a value counts as -/

/-- A text that may be missing, as a value. -/
def ofText? : Option Text → Tree
  | some s => text s
  | none => absent

/-- The text that a value is, or another one. -/
def textOr (other : Text) : Tree → Text
  | text s => s
  | _ => other

/-- Whether a value counts as set: all do but nothing, false, zero and what is empty. -/
def isSet : Tree → Bool
  | absent => false
  | flag b => b
  | number n => n ≠ 0
  | text s => !s.isEmpty
  | list items => !items.isEmpty
  | tuple items => !items.isEmpty
  | node .. => true

/-- Whether the value is this text. -/
def isText (s : Text) : Tree → Bool
  | text t => t == s
  | _ => false

/-- Whether the value is a node of this kind. -/
def isNode (k : NodeKind) : Tree → Bool
  | node l _ => l == k
  | _ => false

/-- The integer that a value counts as: truth values are zero and one. -/
def count? : Tree → Option Int
  | flag b => some (if b then 1 else 0)
  | number n => some n
  | _ => none

mutual

/-- Whether two values compare as equal.  Truth values compare as integers, lists and tuples item
by item, and two nodes never compare as equal. -/
def same : Tree → Tree → Bool
  | absent, absent => true
  | text s, text t => s == t
  | list xs, list ys => sameAll xs ys
  | tuple xs, tuple ys => sameAll xs ys
  | a, b =>
    match a.count?, b.count? with
    | some m, some n => m == n
    | _, _ => false

/-- Whether two lists of values compare as equal. -/
def sameAll : List Tree → List Tree → Bool
  | [], [] => true
  | x :: xs, y :: ys => same x y && sameAll xs ys
  | _, _ => false

end

mutual

/-- Whether a value can serve as a key: a list cannot, nor a tuple that holds one. -/
def isKey : Tree → Bool
  | list _ => false
  | tuple items => areKeys items
  | _ => true

/-- Whether all values of a list can serve as keys. -/
def areKeys : List Tree → Bool
  | [] => true
  | x :: xs => isKey x && areKeys xs

end

/-! ## §3 Parts of a value -/

/-- The first value stored under a field. -/
def lookupField (f : Field) : List (Field × Tree) → Option Tree
  | [] => none
  | (g, t) :: rest => if g = f then some t else lookupField f rest

/-- What stands in a field of a node. -/
def get (f : Field) : Tree → Except Fault Tree
  | node _ fields =>
    match lookupField f fields with
    | some t => .ok t
    | none => .error .missingField
  | _ => .error .missingField

/-- The values that a walk through a value meets: the items of a list or tuple, the characters of
a text. -/
def items : Tree → Except Fault (List Tree)
  | list xs => .ok xs
  | tuple xs => .ok xs
  | text s => .ok (s.map fun c => text [c])
  | _ => .error .wrongSort

/-- The item at a position. -/
def item (i : Nat) : Tree → Except Fault Tree
  | list xs => match xs[i]? with | some t => .ok t | none => .error .outOfRange
  | tuple xs => match xs[i]? with | some t => .ok t | none => .error .outOfRange
  | text s => match s[i]? with | some c => .ok (text [c]) | none => .error .outOfRange
  | _ => .error .wrongSort

/-- The two values that a pair is made of. -/
def pair (t : Tree) : Except Fault (Tree × Tree) :=
  match t.items with
  | .ok [a, b] => .ok (a, b)
  | .ok xs => .error (.refused (.notAPair xs.length))
  | .error e => .error e

/-- The text that a table gives for a value; a value that cannot be a key is a fault. -/
def find (table : List (Text × Text)) (t : Tree) : Except Fault (Option Text) :=
  match t with
  | text s => .ok (table.lookup s)
  | t => if t.isKey then .ok none else .error .wrongSort

/-- What a table gives for a value, or the value itself. -/
def rename (table : List (Text × Text)) (t : Tree) : Except Fault Tree :=
  match t.find table with
  | .ok (some s) => .ok (text s)
  | .ok none => .ok t
  | .error e => .error e

/-! ## §4 Parts with their size -/

/-- Helper: a stored value is smaller than the fields it is stored in. -/
theorem sizeOf_lookupField {f : Field} {fields : List (Field × Tree)} {t : Tree}
    (h : lookupField f fields = some t) : sizeOf t < sizeOf fields := by
  induction fields with
  | nil => simp [lookupField] at h
  | cons p rest ih =>
    obtain ⟨g, u⟩ := p
    rw [lookupField] at h
    split at h
    · cases h
      simp only [List.cons.sizeOf_spec, Prod.mk.sizeOf_spec]
      omega
    · have := ih h
      simp only [List.cons.sizeOf_spec]
      omega

/-- What stands in a field is smaller than the node. -/
theorem sizeOf_get {f : Field} {t u : Tree} (h : t.get f = .ok u) : sizeOf u < sizeOf t := by
  cases t with
  | node k fields =>
    rw [get] at h
    split at h
    · next v hv =>
      cases h
      have := sizeOf_lookupField hv
      simp only [node.sizeOf_spec]
      omega
    · cases h
  | _ => cases h

/-- Helper: a one-character text is no larger than a text that holds the character. -/
theorem sizeOf_singleton_le {c : Char} {s : Text} (h : c ∈ s) :
    sizeOf (text [c]) ≤ sizeOf (text s) := by
  induction s with
  | nil => cases h
  | cons d rest ih =>
    rcases List.mem_cons.1 h with rfl | h
    · simp
      cases rest <;> simp
      omega
    · have := ih h
      simp only [text.sizeOf_spec, List.cons.sizeOf_spec] at this ⊢
      omega

/-- What a walk through a value meets is no larger than the value. -/
theorem sizeOf_items {t x : Tree} {xs : List Tree} (h : t.items = .ok xs) (hx : x ∈ xs) :
    sizeOf x ≤ sizeOf t := by
  cases t with
  | list ys =>
    cases h
    have := List.sizeOf_lt_of_mem hx
    simp only [list.sizeOf_spec]
    omega
  | tuple ys =>
    cases h
    have := List.sizeOf_lt_of_mem hx
    simp only [tuple.sizeOf_spec]
    omega
  | text s =>
    cases h
    obtain ⟨c, hc, rfl⟩ := List.mem_map.1 hx
    exact sizeOf_singleton_le hc
  | _ => cases h

/-- What stands in a field of a node, with its bound. -/
def part (t : Tree) (f : Field) : Except Fault {u : Tree // sizeOf u < sizeOf t} :=
  match h : t.get f with
  | .ok u => .ok ⟨u, sizeOf_get h⟩
  | .error e => .error e

/-- The values that a walk through a value meets, each with its bound. -/
def parts (t : Tree) : Except Fault (List {u : Tree // sizeOf u ≤ sizeOf t}) :=
  match h : t.items with
  | .ok xs => .ok (xs.attach.map fun x => ⟨x.1, sizeOf_items h x.2⟩)
  | .error e => .error e

/-- The two values that a pair is made of, each with its bound. -/
def halves (t : Tree) :
    Except Fault ({u : Tree // sizeOf u ≤ sizeOf t} × {u : Tree // sizeOf u ≤ sizeOf t}) :=
  match t.parts with
  | .ok [a, b] => .ok (a, b)
  | .ok xs => .error (.refused (.notAPair xs.length))
  | .error e => .error e

end Tree

end ShaderBridge
