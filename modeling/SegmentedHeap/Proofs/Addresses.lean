/-
SegmentedHeap.Proofs.Addresses — objects do not move.

`Step` is one operation of a program with the reference that it handed
out, if it handed one out. While an object is there, and its reference is
not handed out again, it stays as it was made: its kind, its address, the
number of its bytes and its stored length are the same. This is kept by
each step, and so by a run, whatever other objects come and go meanwhile.

* `Step` — the operations, with what they hand out.
* `Step.sameMake` — a step leaves an object as it was made.
* `isolated_run` — **objects lie apart, and where they were**.
-/
import SegmentedHeap.Proofs.Isolation

namespace SegmentedHeap

/-- What is decided when an object is made is as it was. -/
structure Object.SameMake (x y : Object) : Prop where
  kind : y.kind = x.kind
  chunks : y.chunks = x.chunks
  address : y.address = x.address
  stored : y.stored = x.stored
  size : y.bytes.length = x.bytes.length

theorem Object.SameMake.refl (x : Object) : x.SameMake x := ⟨rfl, rfl, rfl, rfl, rfl⟩

theorem Object.SameMake.trans {x y z : Object} (hxy : x.SameMake y) (hyz : y.SameMake z) :
    x.SameMake z :=
  ⟨hyz.kind.trans hxy.kind, hyz.chunks.trans hxy.chunks, hyz.address.trans hxy.address,
    hyz.stored.trans hxy.stored, hyz.size.trans hxy.size⟩

namespace Heap

/-- One operation of a program, and the reference that it handed out. -/
inductive Step : Heap → Option ObjRef → Heap → Prop where
  | alloc {h h' : Heap} {obj : ObjRef} (tag : TypeTag) (length : Nat) :
      alloc tag length h = .ok obj h' → Step h (some obj) h'
  | refused {h h' : Heap} {e : HeapError} (tag : TypeTag) (length : Nat) :
      Heap.alloc tag length h = .error (.refused e) h' → Step h none h'
  | allocRetrying {σ : Type} {h h' : Heap} {r : Except HeapError ObjRef} {log' : σ}
      (tracer : Tracer σ) (tag : TypeTag) (length : Nat) (log : σ) :
      allocRetrying tracer tag length log h = .ok (r, log') h' → Step h r.toOption h'
  | free {h h' : Heap} (obj : ObjRef) : Leaves (free obj) h h' → Step h none h'
  | setBytes {h h' : Heap} (obj : ObjRef) (start : Nat) (bytes : List UInt8) :
      Leaves (setBytes obj start bytes) h h' → Step h none h'
  | register {h h' : Heap} (source target : ObjRef) :
      Leaves (register source target) h h' → Step h none h'
  | writeRef {h h' : Heap} (source : ObjRef) (field : Nat) (target : ObjRef) :
      Leaves (writeRef source field target) h h' → Step h none h'
  | collect {σ : Type} {h h' : Heap} (tracer : Tracer σ) (level : Generation) (log : σ) :
      Leaves (collect tracer level log) h h' → Step h none h'

variable {h h' : Heap} {p : ObjRef} {x y : Object} {made : Option ObjRef}

/-- The steps of a program are those of its runs. -/
theorem Step.reachable (hs : Step h made h') (hr : h.Reachable) : h'.Reachable := by
  cases hs with
  | alloc tag length he => exact .alloc tag length hr (Or.inl ⟨_, he⟩)
  | refused tag length he => exact .alloc tag length hr (Or.inr ⟨_, he⟩)
  | allocRetrying tracer tag length log he =>
    exact .allocRetrying tracer tag length log hr (Or.inl ⟨_, he⟩)
  | free obj hl => exact .free obj hr hl
  | setBytes obj start bytes hl => exact .setBytes obj start bytes hr hl
  | register source target hl => exact .register source target hr hl
  | writeRef source field target hl => exact .writeRef source field target hr hl
  | collect tracer level log hl => exact .collect tracer level log hr hl

/-! ## What each operation leaves in place -/

theorem Tried.sameMake {tag : TypeTag} {length : Nat} {r : Except HeapError ObjRef}
    (ht : Tried h tag length r h') (hy : h'.lookup p = some y) (hne : r.toOption ≠ some p) :
    ∃ x, h.lookup p = some x ∧ x.SameMake y := by
  cases r with
  | ok obj =>
    have ha : Allocated h tag length obj h' := ht
    rw [ha.others p fun e => hne (congrArg some e.symm)] at hy
    exact ⟨y, hy, .refl y⟩
  | error e =>
    rw [ht.1] at hy
    exact ⟨y, hy, .refl y⟩

theorem Sifted.sameMake {σ : Type} {tracer : Tracer σ} {level : Generation}
    (hs : Sifted h tracer level h') (hy : h'.lookup p = some y) :
    ∃ x, h.lookup p = some x ∧ x.SameMake y := by
  obtain ⟨x, hx, _, e⟩ := hs.before hy
  refine ⟨x, hx, ?_⟩
  rw [e]
  exact ⟨rfl, rfl, rfl, rfl, rfl⟩

theorem TriedAgain.sameMake {σ : Type} {tracer : Tracer σ} {tag : TypeTag} {length : Nat}
    {r : Except HeapError ObjRef} (ht : TriedAgain h tracer tag length r h')
    (hy : h'.lookup p = some y) (hne : r.toOption ≠ some p) :
    ∃ x, h.lookup p = some x ∧ x.SameMake y := by
  obtain ⟨_, _, h₁, h₂, _, hc, ht, rfl⟩ := ht
  obtain ⟨z, hz, hzy⟩ := ht.sameMake (show h₂.lookup p = some y from hy) hne
  obtain ⟨x, hx, hxz⟩ := Sifted.sameMake hc.toSifted hz
  exact ⟨x, hx, hxz.trans hzy⟩

/-- **A step leaves an object as it was made**, and makes no other than the
one that it hands out. -/
theorem Step.sameMake (hs : Step h made h') (hw : h.WellFormed) (hy : h'.lookup p = some y)
    (hne : made ≠ some p) : ∃ x, h.lookup p = some x ∧ x.SameMake y := by
  -- most steps leave the object alone
  have same : h'.lookup p = h.lookup p → ∃ x, h.lookup p = some x ∧ x.SameMake y :=
    fun e => ⟨y, e ▸ hy, .refl y⟩
  cases hs with
  | alloc tag length he =>
    have ht : Tried h tag length (.ok _) h' := (alloc_ends hw tag length).of_ok he
    exact ht.sameMake hy hne
  | refused tag length he => exact same (by rw [((alloc_ends hw tag length).of_refused he).1])
  | allocRetrying tracer tag length log he =>
    rcases (allocRetrying_ends hw tracer tag length log).of_ok he with ht | ht
    · exact ht.sameMake hy hne
    · exact ht.sameMake hy hne
  | free obj hl =>
    rcases (free_ends hw obj).of_leaves hl with ⟨_, _, hc, _⟩ | ⟨_, rfl⟩
    · by_cases e : p = obj
      · rw [e, hc.lookup_self] at hy
        cases hy
      · exact same (hc.lookup_other e)
    · exact same rfl
  | setBytes obj start bytes hl =>
    rcases (setBytes_ends hw obj start bytes).of_leaves hl with ⟨_, z, hz, hlen, _, hc, _⟩ | ⟨_, hn⟩
    · by_cases e : p = obj
      · rw [e, hc.lookup_self] at hy
        cases hy
        exact ⟨z, e ▸ hz, rfl, rfl, rfl, rfl, length_overwrite hlen⟩
      · exact same (hc.lookup_other e)
    · exact hn.elim
  | register source target hl =>
    rcases (register_ends hw source target).of_leaves hl with ⟨_, hr⟩ | ⟨_, hn⟩
    · by_cases e : p = source
      · cases hx : h.lookup source with
        | none =>
          rw [e, hr.absent hx] at hy
          cases hy
        | some x =>
          obtain ⟨b, hz, _⟩ := hr.present x hx
          rw [e, hz] at hy
          cases hy
          exact ⟨x, e ▸ hx, rfl, rfl, rfl, rfl, rfl⟩
      · exact same (hr.others p e)
    · exact hn.elim
  | writeRef source field target hl =>
    rcases (writeRef_ends hw source field target).of_leaves hl with ⟨_, hc⟩ | ⟨_, hn⟩
    · obtain ⟨z, b, hz, hroom, hz', _⟩ := hc.holder
      by_cases e : p = source
      · rw [e, hz'] at hy
        cases hy
        refine ⟨z, e ▸ hz, rfl, rfl, rfl, rfl, length_overwrite ?_⟩
        rw [LittleEndian.length_encode]
        exact hroom
      · exact same (hc.others p e)
    · exact same (by rw [hn.1])
  | collect tracer level log hl =>
    rcases (collect_ends hw tracer level log).of_leaves hl with ⟨_, hc⟩ | ⟨_, hn⟩
    · exact hc.toSifted.sameMake hy
    · exact hn.elim

/-! ## Runs -/

/-- A step after which the object is still there, its reference not handed
out. -/
def Stays (p : ObjRef) (h h' : Heap) : Prop :=
  ∃ made, Step h made h' ∧ made ≠ some p ∧ h'.isAllocated p = true

/-- Along a run of such steps the object stays as it was made. -/
theorem sameMake_run (hr : h.Reachable) (hx : h.lookup p = some x)
    (hrun : Relation.ReflTransGen (Stays p) h h') :
    h'.Reachable ∧ ∃ y, h'.lookup p = some y ∧ x.SameMake y := by
  induction hrun with
  | refl => exact ⟨hr, x, hx, .refl x⟩
  | tail _ hstep ih =>
    obtain ⟨hr', y, hy, hsame⟩ := ih
    obtain ⟨made, hs, hne, ha⟩ := hstep
    have hr'' := hs.reachable hr'
    obtain ⟨z, hz⟩ := hr''.wellFormed.isAllocated_iff_lookup.mp ha
    obtain ⟨y', hy', hnext⟩ := hs.sameMake hr'.wellFormed hz hne
    rw [hy] at hy'
    cases hy'
    exact ⟨hr'', z, hz, hsame.trans hnext⟩

/-- **Wherever the system puts the blocks of a run, the objects of its
heaps lie apart**, inside the memory of their segments and aligned; and
while an object is there it stays where it is. -/
theorem isolated_run (hr : h.Reachable) :
    (∀ place, h.store.LaidOut place → h.Isolated place) ∧
    ∀ p h', h.isAllocated p = true → Relation.ReflTransGen (Stays p) h h' →
      h'.addressOf p = h.addressOf p ∧ h'.capacity p = h.capacity p := by
  refine ⟨fun place hl => hr.wellFormed.isolated hr.configured hl, fun p h' hp hrun => ?_⟩
  obtain ⟨x, hx⟩ := hr.wellFormed.isAllocated_iff_lookup.mp hp
  obtain ⟨_, y, hy, hsame⟩ := sameMake_run hr hx hrun
  rw [addressOf_of_lookup hx, addressOf_of_lookup hy, capacity_of_lookup hx, capacity_of_lookup hy,
    hsame.address, hsame.size]
  exact ⟨rfl, rfl⟩

/-- A new heap for the objects of the model whose blocks have four areas. -/
def roomyHeap : Heap :=
  (create { smallConfig with segmentsPerBlock := 4 } (Model.layout 8) .standard).toOption.get
    (by decide +kernel)

/-- A pair and a vector of four integers, which share a block with two
spare areas, and a longer vector in a block to itself. -/
def mixedHeap : Heap :=
  after (alloc Model.ModelType.vector.tag 20) (after (alloc Model.ModelType.intVec.tag 4)
    (after allocPair roomyHeap))

theorem reachable_mixedHeap : mixedHeap.Reachable :=
  .alloc _ _ (.alloc _ _ (.alloc _ _ (.create (eq_ok_of_toOption (Option.some_get _).symm))
    (leaves_after (by decide +kernel))) (leaves_after (by decide +kernel)))
    (leaves_after (by decide +kernel))

/-- A collection frees the integers and gives their segment back, and its
area is spare. A cell then has both its index and its area, which is cut
into other slots, while the pair and the long vector are where they were. -/
theorem isolated_run_reuse : ∃ (h h₁ h' : Heap) (pair other vector : ObjRef)
    (r : CollectionReport × Unit), h.Reachable ∧
      h.objects = [pair, other, vector] ∧ h.store.spare.length = 2 ∧
      h.Isolated (· * Word.limit) ∧
      collect (pairsFrom [pair, vector]) .two () h = .ok r h₁ ∧ r.1.released = 1 ∧
      h₁.objects = [pair, vector] ∧ h₁.store.spare.length = 3 ∧ h₁.Isolated (· * Word.limit) ∧
      alloc Model.ModelType.cell.tag 0 h₁ = .ok other h' ∧ h'.store.spare.length = 2 ∧
      h.typeOf other = .ok Model.ModelType.intVec.tag ∧ h.chunksOf other = .ok 4 ∧
      h'.typeOf other = .ok Model.ModelType.cell.tag ∧ h'.chunksOf other = .ok 2 ∧
      h'.addressOf other = h.addressOf other ∧ h'.Isolated (· * Word.limit) ∧
      ∀ p ∈ [pair, vector],
        h'.addressOf p = h.addressOf p ∧ h'.capacity p = h.capacity p := by
  let pair : ObjRef := .ofSlot 0 0
  let other : ObjRef := .ofSlot 1 0
  let vector : ObjRef := .ofSlot 2 0
  let h := mixedHeap
  let h₁ := after (collect (pairsFrom [pair, vector]) .two ()) h
  let h' := after (alloc Model.ModelType.cell.tag 0) h₁
  have hcollect : collect (pairsFrom [pair, vector]) .two () h =
      .ok (⟨.two, 2, 1, 4, 2, 1, 0⟩, ()) h₁ := eq_ok_of_returned (by decide +kernel)
  have halloc : alloc Model.ModelType.cell.tag 0 h₁ = .ok other h' :=
    eq_ok_of_returned (by decide +kernel)
  have hr : h.Reachable := reachable_mixedHeap
  have hr₁ : h₁.Reachable := .collect _ _ _ hr (Or.inl ⟨_, hcollect⟩)
  have hr' : h'.Reachable := .alloc _ _ hr₁ (Or.inl ⟨_, halloc⟩)
  have apart : ∀ {g : Heap}, g.Reachable → g.Isolated (· * Word.limit) := fun hg =>
    (isolated_run hg).1 _ (hg.wellFormed.laidOut hg.configured)
  have hobjects : h.objects = [pair, other, vector] ∧ h₁.objects = [pair, vector] ∧
      h'.objects = [pair, other, vector] := by
    decide +kernel
  have hspare : h.store.spare.length = 2 ∧ h₁.store.spare.length = 3 ∧
      h'.store.spare.length = 2 := by
    decide +kernel
  have hother : h.typeOf other = .ok Model.ModelType.intVec.tag ∧ h.chunksOf other = .ok 4 ∧
      h'.typeOf other = .ok Model.ModelType.cell.tag ∧ h'.chunksOf other = .ok 2 ∧
      h'.addressOf other = h.addressOf other := by
    decide +kernel
  obtain ⟨hall, hall₁, hall'⟩ := hobjects
  obtain ⟨htype, hchunks, htype', hchunks', haddress⟩ := hother
  have hsub : [pair, vector] ⊆ [pair, other, vector] := by decide
  have stays : ∀ p ∈ [pair, vector], h.isAllocated p = true ∧
      Relation.ReflTransGen (Stays p) h h' := by
    intro p hp
    have ha₁ := (mem_objects hr₁.wellFormed.toFormed).mp (hall₁ ▸ hp)
    have hne : some other ≠ some p := by
      rintro e
      rw [← Option.some.inj e] at hp
      exact absurd hp (by decide)
    refine ⟨(mem_objects hr.wellFormed.toFormed).mp ?_,
      .tail (.single ⟨none, .collect _ _ () (Or.inl ⟨_, hcollect⟩), nofun, ha₁⟩)
        ⟨_, .alloc _ _ halloc, hne, (mem_objects hr'.wellFormed.toFormed).mp ?_⟩⟩
    · rw [hall]
      exact hsub hp
    · rw [hall']
      exact hsub hp
  exact ⟨h, h₁, h', pair, other, vector, _, hr, hall, hspare.1, apart hr, hcollect, rfl, hall₁,
    hspare.2.1, apart hr₁, halloc, hspare.2.2, htype, hchunks, htype', hchunks', haddress,
    apart hr', fun p hp => (isolated_run hr).2 p h' (stays p hp).1 (stays p hp).2⟩

end Heap

end SegmentedHeap
