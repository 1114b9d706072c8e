/-
SegmentedHeap.Proofs.Bystanders — what a command leaves alone.

A command stores in one object at most, which it names; all else that it
does is to make objects and to collect. So it goes past every other object
that the roots lead to, and if it is refused it goes past all of them. An
interned symbol stays a root, and what it leads to is kept with it, young
or old, whatever a program does meanwhile that is not a store in one of
these objects.

* `Command.StoresIn`, `Command.Typed` — the object that a command stores
  in, and stores in objects of the right type.
* `run_passes` — **one command** leaves the others alone.
* `Heap.Leads`, `Avoiding` — some of what a symbol leads to, and runs that
  do not store in it.
* `Avoiding.keeps` — **what a symbol leads to is kept** along such a run.
-/
import Mathlib.Logic.Relation
import SegmentedHeap.Proofs.Lists

namespace SegmentedHeap

open Model

namespace Mutator

/-! ## Where commands store -/

namespace Command

/-- The object that a command stores in, with the type that it has to be
of. -/
def target? : Command → Option (ModelType × ObjRef)
  | .setCar obj _ | .setCdr obj _ => some (.pair, obj)
  | .setCellValue obj _ => some (.cell, obj)
  | .setSymbolValue obj _ => some (.symbol, obj)
  | .vectorSet obj _ _ => some (.vector, obj)
  | .symbol _ | .intVec _ | .pair _ _ | .cell _ _ | .vector _ | .list _ => none
  | .pushRoot _ | .popRoot | .setRoot _ _ | .truncateRoots _ | .setAutoCollect _
  | .collect _ => none

def StoresIn (c : Command) (p : ObjRef) : Prop := ∃ type, c.target? = some (type, p)

/-- The command stores in an object of the type that it is for, if it is
handed one. -/
def Typed (c : Command) (h : Heap) : Prop :=
  ∀ t ∈ c.target?, t.2 = .null ∨ h.typeOf t.2 = .ok t.1.tag

instance (c : Command) (h : Heap) : Decidable (c.Typed h) :=
  inferInstanceAs (Decidable (∀ t ∈ c.target?, t.2 = .null ∨ h.typeOf t.2 = .ok t.1.tag))

end Command

variable {α : Type} {m m' : Mutator} {c : Command} {P : ObjRef → Prop} {kept : List ObjRef}
  {node : Node ObjRef} {s p : ObjRef}

/-! ## One command -/

/-- The symbols are the same, and all that the roots led to is seen as
before. -/
structure Untouched (m m' : Mutator) : Prop where
  symbols : m'.symbols = m.symbols
  interned : m'.interned = m.interned
  seen : ∀ p, m.heap.Guarded m.tracer p → m'.heap.view? p = m.heap.view? p

/-- The same, but for a symbol that the command interns and for the object
that it stores in. -/
structure Passes (m : Mutator) (c : Command) (m' : Mutator) : Prop where
  symbols : (m'.symbols = m.symbols ∧ m'.interned = m.interned) ∨
    ∃ id sym, c = .symbol id ∧ m'.symbols = m.symbols ++ [sym]
  seen : ∀ p, m.heap.Guarded m.tracer p → ¬ c.StoresIn p → m'.heap.view? p = m.heap.view? p

theorem Untouched.passes (hu : m.Untouched m') (c : Command) : m.Passes c m' :=
  ⟨Or.inl ⟨hu.symbols, hu.interned⟩, fun p hp _ => hu.seen p hp⟩

theorem Untouched.refl (m : Mutator) : m.Untouched m := ⟨rfl, rfl, fun _ _ => rfl⟩

/-- A command that only moves roots. -/
theorem restacked_passes (m : Mutator) (c : Command) (stack : Array ObjRef) :
    m.Passes c { m with stack } := ⟨Or.inl ⟨rfl, rfl⟩, fun _ _ _ => rfl⟩

theorem Saved.untouched (hs : m.Saved kept m') : m.Untouched m' := by
  obtain ⟨h', rfl, _, hsaves⟩ := hs
  refine ⟨rfl, rfl, fun p hp => hsaves.views p (guarded_mono (fun q hq => ?_) hp)⟩
  exact mem_pushed_roots.mpr (Or.inr hq)

theorem Constructs.untouched {obj : ObjRef} (hc : m.Constructs kept node obj m') :
    m.Untouched m' := by
  obtain ⟨v, ⟨h', rfl, hw, hsaves, _⟩, _⟩ := hc
  exact Saved.untouched ⟨h', rfl, hw, hsaves⟩

/-- A command that makes an object. -/
theorem made_passes {act : MutatorM ObjRef} (c : Command)
    (h : Ends (act m) (m.Constructs kept node) (m.Short kept) fun _ => False) :
    Ends ((act >>= fun _ => pure ()) m) (fun _ => m.Passes c) (fun _ => m.Untouched)
      fun _ => True :=
  Ends.bind (h.mono (fun _ _ hd => hd) (fun _ _ hd => hd.2.untouched) fun _ hd => hd.elim)
    fun _ _ hd => hd.untouched.passes c

/-- A command that stores a reference. -/
theorem store_passes (hw : m.heap.WellFormed) (hc : c.StoresIn s) (field : Nat) (target : ObjRef) :
    Ends (onHeap (Heap.writeRef s field target) m) (fun _ => m.Passes c) (fun _ => m.Untouched)
      fun _ => True := by
  refine (onHeap_ends (Heap.writeRef_ends hw s field target)).mono (fun _ m' hd => ?_)
    (fun _ m' hd => ?_) fun _ _ => trivial
  · obtain ⟨h', rfl, hd⟩ := hd
    refine ⟨Or.inl ⟨rfl, rfl⟩, fun p _ hp => Heap.view?_congr hw.toFormed hd.wellFormed.toFormed
      hd.setting.kinds (hd.others p ?_)⟩
    rintro rfl
    exact hp hc
  · obtain ⟨h', rfl, rfl, _⟩ := hd
    exact Untouched.refl m

/-- **One command** goes past all that the roots lead to but the object
that it stores in, and past that as well if it is refused. -/
theorem run_passes (hr : m.Ready) (c : Command) (ha : ∀ p ∈ c.args, m.heap.Proper p) :
    Ends (c.run m) (fun _ => m.Passes c) (fun _ => m.Untouched) fun _ => True := by
  have hw := hr.serves.wellFormed
  cases c with
  | symbol id =>
    refine Ends.bind ((symbol_shows hr id).mono (fun sym m' hd => ?_)
      (fun _ _ hd => hd.2.2.untouched) fun _ hd => hd.elim) fun _ _ hd => hd
    rcases hd with ⟨rfl, _⟩ | ⟨_, m'', hd, rfl⟩
    · exact (Untouched.refl _).passes _
    · refine ⟨Or.inr ⟨id, sym, rfl, ?_⟩, fun p hp _ => hd.untouched.seen p hp⟩
      rw [intern, hd.untouched.symbols]
  | intVec values => exact made_passes _ (intVec_shows hr values)
  | pair car cdr => exact made_passes _ (pair_shows hr ha)
  | cell value n => exact made_passes _ (cell_shows hr ha n)
  | vector length => exact made_passes _ (vector_shows hr length)
  | list items =>
    exact Ends.bind ((list_shows hr ha).mono (fun _ _ hd => hd.1.untouched.passes _)
      (fun _ _ hd => hd.2.untouched) fun _ hd => hd.elim) fun _ _ hd => hd
  | setCar obj value => exact store_passes hw ⟨_, rfl⟩ 0 value
  | setCdr obj value => exact store_passes hw ⟨_, rfl⟩ 1 value
  | setCellValue obj value => exact store_passes hw ⟨_, rfl⟩ 0 value
  | setSymbolValue sym value => exact store_passes hw ⟨_, rfl⟩ 0 value
  | vectorSet obj index value =>
    show Ends (vectorSet obj index value m) _ _ _
    unfold vectorSet
    refine Ends.get_bind ?_
    -- an index that is refused leaves everything untouched
    cases m.checkIndex obj index with
    | ok _ => exact store_passes hw ⟨_, rfl⟩ index value
    | error e =>
      cases e with
      | refused e => exact Untouched.refl m
      | fault f => trivial
  | pushRoot obj => exact Ends.of_eq rfl (m.restacked_passes _ _)
  | popRoot => exact Ends.of_eq rfl (m.restacked_passes _ _)
  | setRoot index obj =>
    exact (m.setRoot_ends index obj).mono (fun _ _ hd => hd ▸ m.restacked_passes _ _)
      (fun _ _ hn => hn.elim) fun _ _ => trivial
  | truncateRoots depth => exact Ends.of_eq rfl (m.restacked_passes _ _)
  | setAutoCollect autoCollect => exact ⟨Or.inl ⟨rfl, rfl⟩, fun _ _ _ => rfl⟩
  | collect level =>
    exact Ends.bind ((collect_saves hr.serves level).mono (fun _ _ hd => hd.untouched.passes _)
      (fun _ _ hd => hd.elim) fun _ hd => hd.elim) fun _ _ hd => hd

theorem Passes.mem_symbols (hp : m.Passes c m') (hs : s ∈ m.symbols) : s ∈ m'.symbols := by
  rcases hp.symbols with e | ⟨_, _, _, e⟩
  · rwa [e.1]
  · rw [e]
    exact List.mem_append_left _ hs

end Mutator

/-! ## Runs -/

/-- An object leads to another through objects that `P` holds of. -/
def Heap.Leads {σ : Type} (h : Heap) (tracer : Tracer σ) (P : ObjRef → Prop) :
    ObjRef → ObjRef → Prop :=
  Relation.ReflTransGen fun q p => p ∈ h.refsOf tracer q ∧ h.isAllocated p = true ∧ P p

namespace Mutator

variable {m m' : Mutator} {c : Command} {P : ObjRef → Prop} {s p : ObjRef}

/-- A run of commands that do not store in an object that `P` holds of. -/
def Avoiding (P : ObjRef → Prop) : Mutator → Mutator → Prop :=
  Relation.ReflTransGen fun m m' => ∃ c : Command, (∀ p ∈ c.args, m.heap.Proper p) ∧
    (∀ p, P p → ¬ c.StoresIn p) ∧ Leaves c.run m m'

/-- What a symbol leads to, the roots lead to. -/
theorem Consistent.live_of_leads (hc : m.Consistent) (hs : s ∈ m.symbols)
    (hl : m.heap.Leads m.tracer P s p) : m.heap.Live m.tracer p := by
  induction hl with
  | refl => exact .root (m.mem_roots_of_symbol s hs) (hc.isAllocated_symbol hs)
  | tail _ hstep ih => exact .step ih hstep.1 hstep.2.1

/-- What an object of `P` leads to through objects of `P` is one of them. -/
theorem prop_of_leads (hP : P s) (hl : m.heap.Leads m.tracer P s p) : P p := by
  cases hl with
  | refl => exact hP
  | tail _ hstep => exact hstep.2.2

/-- A command that stores in no object of `P` keeps what a symbol leads to
through these, as it is. -/
theorem Passes.leads (hc : m.Consistent) (hf' : m'.heap.Formed) (hp : m.Passes c m')
    (hs : s ∈ m.symbols) (hPs : P s) (hP : ∀ q, P q → ¬ c.StoresIn q)
    (hl : m.heap.Leads m.tracer P s p) :
    m'.heap.Leads m'.tracer P s p ∧ m'.heap.view? p = m.heap.view? p := by
  have hseen : ∀ q, m.heap.Leads m.tracer P s q → m'.heap.view? q = m.heap.view? q := fun q hq =>
    hp.seen q (Or.inl (hc.live_of_leads hs hq)) (hP q (prop_of_leads hPs hq))
  refine ⟨?_, hseen p hl⟩
  induction hl with
  | refl => exact .refl
  | @tail q p hq hstep ih =>
    obtain ⟨hmem, hallocated, hPp⟩ := hstep
    obtain ⟨v, hv⟩ := (Heap.isAllocated_iff_view? hc.serves.formed).mp hallocated
    have hrefs : m'.heap.refsOf m'.tracer q = m.heap.refsOf m.tracer q := by
      rw [Heap.refsOf, Heap.refsOf, hseen q hq]
      rfl
    refine ih.tail ⟨hrefs ▸ hmem, (Heap.isAllocated_iff_view? hf').mpr ⟨v, ?_⟩, hPp⟩
    exact (hseen p (hq.tail ⟨hmem, hallocated, hPp⟩)).trans hv

/-- **What a symbol leads to is kept** along every run that does not store
in it, and is seen as before. -/
theorem Avoiding.keeps (hr : m.Reached) (ha : Avoiding P m m') (hs : s ∈ m.symbols) (hPs : P s)
    (hl : m.heap.Leads m.tracer P s p) :
    m'.heap.isAllocated p = true ∧ m'.heap.view? p = m.heap.view? p := by
  have hrun : m'.Reached ∧ s ∈ m'.symbols ∧ ∀ p, m.heap.Leads m.tracer P s p →
      m'.heap.Leads m'.tracer P s p ∧ m'.heap.view? p = m.heap.view? p := by
    induction ha with
    | refl => exact ⟨hr, hs, fun p hp => ⟨hp, rfl⟩⟩
    | tail _ hstep ih =>
      obtain ⟨hr₁, hs₁, hall⟩ := ih
      obtain ⟨c, hargs, hP, hleaves⟩ := hstep
      have hr₂ := Reached.step c hr₁ hargs hleaves
      have hpasses := ((run_passes hr₁.ready c hargs).mono (fun _ _ hd => hd)
        (fun _ _ hd => hd.passes c) fun _ h => h).leaves hleaves
      refine ⟨hr₂, hpasses.mem_symbols hs₁, fun p hp => ?_⟩
      obtain ⟨hl₁, hv₁⟩ := hall p hp
      obtain ⟨hl₂, hv₂⟩ := hpasses.leads hr₁.consistent hr₂.consistent.serves.formed hs₁ hPs hP hl₁
      exact ⟨hl₂, hv₂.trans hv₁⟩
  obtain ⟨hr', hs', hall⟩ := hrun
  obtain ⟨hl', hv⟩ := hall p hl
  exact ⟨(hr'.consistent.live_of_leads hs' hl').isAllocated, hv⟩

end Mutator

end SegmentedHeap
