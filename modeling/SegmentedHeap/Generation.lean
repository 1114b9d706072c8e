/-
SegmentedHeap.Generation — the age of an object.

Objects start in generation zero and move up as they survive
collections. A collection is run at a level, which is itself a
generation: it considers the objects of that generation and below.

* `Generation.promoted` — where a survivor of a collection moves to.
* `ByGeneration` — one value for each of the three generations.
-/

namespace SegmentedHeap

/-- Age tier of an object. -/
inductive Generation where
  /-- Newly allocated. -/
  | zero
  /-- Survived one collection. -/
  | one
  /-- Survived a full collection, or is never collected. -/
  | two
deriving DecidableEq, Inhabited

namespace Generation

/-- The three generations, youngest first. -/
def all : List Generation := [.zero, .one, .two]

def toNat : Generation → Nat
  | .zero => 0
  | .one => 1
  | .two => 2

/-- The generation of a number, if there is one. -/
def ofNat? : Nat → Option Generation
  | 0 => some .zero
  | 1 => some .one
  | 2 => some .two
  | _ => none

instance : LE Generation := ⟨fun a b => a.toNat ≤ b.toNat⟩
instance : LT Generation := ⟨fun a b => a.toNat < b.toNat⟩
instance (a b : Generation) : Decidable (a ≤ b) := inferInstanceAs (Decidable (a.toNat ≤ b.toNat))
instance (a b : Generation) : Decidable (a < b) := inferInstanceAs (Decidable (a.toNat < b.toNat))

theorem le_iff {a b : Generation} : a ≤ b ↔ a.toNat ≤ b.toNat := Iff.rfl

theorem lt_iff {a b : Generation} : a < b ↔ a.toNat < b.toNat := Iff.rfl

/-- The generation that a survivor of a collection at `level` moves to:
the last one after a full collection, else the next one. -/
def promoted (g level : Generation) : Generation :=
  match level, g with
  | .two, _ => .two
  | _, .zero => .one
  | _, _ => .two

/-- A survivor never grows younger. -/
theorem le_promoted (g level : Generation) : g ≤ g.promoted level := by
  cases g <;> cases level <;> decide

theorem ofNat?_toNat (g : Generation) : ofNat? g.toNat = some g := by
  cases g <;> rfl

def text (g : Generation) : String := toString g.toNat

end Generation

/-- A value for each generation. -/
structure ByGeneration (α : Type) where
  zero : α
  one : α
  two : α
deriving DecidableEq, Inhabited

namespace ByGeneration

variable {α β : Type}

/-- The same value for every generation. -/
def replicate (a : α) : ByGeneration α := ⟨a, a, a⟩

def get (v : ByGeneration α) : Generation → α
  | .zero => v.zero
  | .one => v.one
  | .two => v.two

def modify (v : ByGeneration α) (f : α → α) : Generation → ByGeneration α
  | .zero => { v with zero := f v.zero }
  | .one => { v with one := f v.one }
  | .two => { v with two := f v.two }

def toList (v : ByGeneration α) : List α := [v.zero, v.one, v.two]

/-- The sum over all generations. -/
def total (v : ByGeneration Nat) : Nat := v.zero + v.one + v.two

@[simp] theorem get_replicate (a : α) (g : Generation) : (replicate a).get g = a := by
  cases g <;> rfl

theorem get_modify (v : ByGeneration α) (f : α → α) (g h : Generation) :
    (v.modify f g).get h = if g = h then f (v.get h) else v.get h := by
  cases g <;> cases h <;> rfl

theorem total_eq (v : ByGeneration Nat) : v.total = v.get .zero + v.get .one + v.get .two := rfl

end ByGeneration

end SegmentedHeap
