/-
SegmentedHeap.Proofs.Fitting — no constructor goes past its object.

A new object is given the chunks of its kind, which are enough for its
data. So a constructor has room for all that it stores, whatever it is
given and whatever was done to the heap before: it is refused for want of
room or for a size, or it meets a reference that names nothing.

* `Housed` — an object with the chunks of its kind.
* `Driven` — all that can be done with a mutator, dangling references
  included.
* `Furnishing` — an object with room, and the stores to it.
* `fits_run` — **the constructors**.
-/
import SegmentedHeap.Proofs.MutatorHeap
import SegmentedHeap.Proofs.SizeClasses

namespace SegmentedHeap

open Model

/-- The faults of a reference that names nothing: a collection met it, or
it was stored and not even its segment is there. -/
inductive Fault.Stale : Fault → Prop where
  | stray (p : ObjRef) : Stale (.strayReference p)
  | unreserved (index : SegmentIndex) : Stale (.unreserved index)

/-! ## Objects with the chunks of their kinds -/

namespace ObjectView

variable {v : ObjectView} {type : ModelType} {n i : Nat}

/-- It has room for its data. -/
theorem Blank.payload_le (hb : v.Blank type n) : type.payload n ≤ v.capacity := by
  have hroom := hb.room
  cases type with
  | nil | symbol | pair | cell => exact hroom
  | intVec | vector =>
    rw [bytesFor_eq_payload (hb.bounded rfl)] at hroom
    exact hroom

/-- What is seen of a new object, which has just the chunks of its kind. -/
structure Housed (v : ObjectView) (chunkBytes : Nat) (type : ModelType) (n : Nat) : Prop
    extends Blank v type n where
  chunks : ∃ spec needed, Classed chunkBytes type n spec needed ∧
    v.capacity = spec.size.taken needed * chunkBytes

end ObjectView

namespace Heap

variable {h h' : Heap} {obj : ObjRef} {type : ModelType} {length chunks : Nat} {spec : Kind}

/-- The chunks of a request are those that its kind takes. -/
theorem taken_of_requestedChunks (hc : h.requestedChunks spec length = .ok chunks) :
    ∃ needed, h.layout.chunksFor spec.tag length = .ok needed ∧
      chunks = spec.size.taken needed := by
  rcases h.requestedChunks_cases spec length with ⟨_, _, e⟩ |
    ⟨needed, hneeded, ⟨n, hs, e⟩ | ⟨hs, e⟩⟩
  · cases e.symm.trans hc
  all_goals
    rw [e] at hc
    split at hc
    · cases hc
    · cases hc
      exact ⟨needed, hneeded, by rw [hs]; rfl⟩

/-- **A new object** is of the kind that the layout gives it. -/
theorem Allocated.housed (hs : h.Suited) (ha : Allocated h type.tag length obj h') :
    ∃ v, h'.view? obj = some v ∧ v.Housed h.config.chunkBytes type length := by
  obtain ⟨v, hv, hb⟩ := ha.blank hs
  obtain ⟨r, x, hr, _, _, hfresh, hobj⟩ := ha.object
  obtain ⟨hassigns, _, hchunks⟩ := checks_of_request hr
  obtain ⟨needed, hneeded, htaken⟩ := taken_of_requestedChunks hchunks
  obtain ⟨list, hlist, htable⟩ := hs.kinds
  have hkind := hassigns.kindFor
  rw [hs.layout] at hlist hneeded hkind
  refine ⟨v, hv, hb, r.spec, needed, ⟨⟨list, r.kind, hlist, hkind, ?_⟩, ?_⟩, ?_⟩
  · exact (get?_ofList htable _).symm.trans hassigns.entry
  · rw [← hassigns.tag]
    exact hneeded
  · obtain ⟨y, spec, hy, _, rfl⟩ := (view?_eq_some ha.wellFormed.toFormed).mp hv
    cases hobj.symm.trans hy
    show (r.object x).bytes.length = _
    rw [length_bytes_of_lookup hobj, ha.setting.geometry.chunkBytes,
      hs.chunkBytes_eq hs.sized.chunk, ← htaken]
    exact congrArg (· * _) hfresh.chunks

end Heap

namespace Mutator

variable {m m' : Mutator} {kept : List ObjRef} {obj p target : ObjRef} {type : ModelType}
  {length room : Nat} {v : ObjectView}

/-! ## All that can be done with a mutator -/

/-- The mutators of all programs, whatever they hand over, and whatever
they do to the heap besides. -/
inductive Driven : Mutator → Prop where
  | create {config : Config} {system : System} {m : Mutator} :
      create config system = .ok m → Driven m
  | command {m m' : Mutator} (c : Command) : Driven m → Leaves c.run m m' → Driven m'
  | onHeap {m : Mutator} {h' : Heap} {made : Option ObjRef} :
      Driven m → Heap.Step m.heap made h' → Driven (m.withHeap h')

/-- Those that hand over proper references are among them. -/
theorem Reached.driven (hr : Reached m) : m.Driven := by
  induction hr with
  | create hc => exact .create hc
  | step c _ _ hl ih => exact .command c ih hl

theorem Driven.grounded (hd : Driven m) : m.Grounded := by
  induction hd with
  | create hc => exact grounded_create hc
  | command c _ hl ih => exact ih.command hl
  | onHeap _ hs ih => exact ih.steps hs.steps

/-- **A new object is housed**, unless the request is refused; for its size
only, if it is for a length that the type has. -/
theorem alloc_housed (hg : m.Grounded) (type : ModelType) (length : Nat) (kept : List ObjRef) :
    Ends (alloc type length kept m)
      (fun obj m' => m'.Grounded ∧
        ∃ v, m'.heap.view? obj = some v ∧ v.Housed m.heap.config.chunkBytes type length)
      (fun e _ => (∀ n, type.lengthRule = .constant n → length = n) → e.OfSize)
      Fault.Stale := by
  have hi : (m.pushed kept).Endures fun h => h.WellFormed ∧ Heap.SameSetting m.heap h :=
    ⟨fun _ hh => hh.1, fun _ _ _ _ hh hc => ⟨hc.wellFormed, hh.2.trans hc.setting⟩,
      fun _ metrics hh => ⟨hh.1.withMetrics metrics,
        ⟨hh.2.config, hh.2.layout, hh.2.kinds, hh.2.geometry⟩⟩⟩
  have hhere : m.heap.WellFormed ∧ Heap.SameSetting m.heap m.heap :=
    ⟨hg.reachable.wellFormed, .refl _⟩
  refine ((moving_alloc type length kept m).and (alloc_goes hi hhere type length)).mono
    (fun obj m' hd => ?_) (fun e m' hd hlength => ?_) fun f hf => ?_
  · obtain ⟨hsteps, h', rfl, h₁, h₂, metrics, ⟨_, hset⟩, ha, rfl⟩ := hd
    obtain ⟨v, hv, hhoused⟩ := ha.housed (hg.suited.congr hset)
    rw [hset.config] at hhoused
    exact ⟨hg.steps hsteps, v, hv, hhoused⟩
  · obtain ⟨_, h', rfl, _, h₁, ⟨_, hset⟩, hrefused⟩ := hd
    exact (hg.suited.congr hset).ofSize hlength hrefused
  · obtain ⟨_, h₁, ⟨_, hset⟩, ⟨_, _, p, rfl, _⟩ | hf⟩ := hf
    · exact .stray p
    · exact ((hg.suited.congr hset).no_fault _ _ f hf).elim

/-! ## Constructors, whatever they are given -/

/-- There is an object with room for so many bytes. -/
structure Furnishing (obj : ObjRef) (room : Nat) (m : Mutator) : Prop where
  grounded : m.Grounded
  object : ∃ x, m.heap.lookup obj = some x ∧ room ≤ x.bytes.length

theorem alloc_furnishing (hg : m.Grounded) (kept : List ObjRef)
    (hlength : ∀ n, type.lengthRule = .constant n → length = n) :
    Ends (alloc type length kept m) (fun obj => Furnishing obj (type.payload length))
      (fun e _ => e.OfSize) Fault.Stale := by
  refine (alloc_housed hg type length kept).mono (fun obj m' hd => ?_)
    (fun _ _ hr => hr hlength) fun _ h => h
  obtain ⟨hg', v, hv, hb⟩ := hd
  obtain ⟨x, spec, hx, _, rfl⟩ :=
    (Heap.view?_eq_some hg'.reachable.wellFormed.toFormed).mp hv
  exact ⟨hg', x, hx, hb.payload_le⟩

namespace Furnishing

/-- **Any reference is stored** in a field that there is room for. -/
theorem storeRef (hf : Furnishing obj room m) {field : Nat}
    (hroom : field * refBytes + refBytes ≤ room) (target : ObjRef) :
    Ends (onHeap (Heap.writeRef obj field target) m) (fun _ => Furnishing obj room)
      (fun _ _ => False) fun f => f = .unreserved target.segment ∧ ¬ m.heap.Proper target := by
  have hw := hf.grounded.reachable.wellFormed
  obtain ⟨x, hx, hle⟩ := hf.object
  refine ((moving_writeRef obj field target m).and
    (onHeap_ends (Heap.writeRef_ends hw obj field target))).mono
    (fun _ m' hd => ?_) (fun _ m' hd => ?_) fun f hn => ?_
  · obtain ⟨hsteps, h', rfl, hwritten⟩ := hd
    obtain ⟨y, b, hy, hfield, hy', _⟩ := hwritten.holder
    cases hx.symm.trans hy
    refine ⟨hf.grounded.steps hsteps, _, hy', Nat.le_trans hle (Nat.le_of_eq ?_)⟩
    refine (length_overwrite ?_).symm
    rw [LittleEndian.length_encode]
    exact hfield
  · obtain ⟨_, h', rfl, _, hshort⟩ := hd
    exact absurd (hshort x hx) (Nat.not_lt.mpr (Nat.le_trans hroom hle))
  · obtain ⟨_, rfl, hnone, hne⟩ := hn
    refine ⟨rfl, fun hp => ?_⟩
    -- the segment of an object is reserved
    rcases hw.toFormed.proper_iff.mp hp with e | ⟨y, hy⟩
    · exact hne e
    · rw [Heap.lookup_of_none hnone] at hy
      cases hy

/-- **Bytes are stored** that there is room for. -/
theorem storeBytes (hf : Furnishing obj room m) {start : Nat} {bytes : List UInt8}
    (hroom : start + bytes.length ≤ room) :
    Ends (onHeap (Heap.setBytes obj start bytes) m) (fun _ => Furnishing obj room)
      (fun _ _ => False) (fun _ => False) := by
  have hw := hf.grounded.reachable.wellFormed
  obtain ⟨x, hx, hle⟩ := hf.object
  refine ((moving_setBytes obj start bytes m).and
    (onHeap_ends (Heap.setBytes_ends hw obj start bytes))).mono
    (fun _ m' hd => ?_) (fun _ m' hd => ?_) fun f hn => ?_
  · obtain ⟨hsteps, h', rfl, y, hy, hfield, _, hchanged, _⟩ := hd
    cases hx.symm.trans hy
    exact ⟨hf.grounded.steps hsteps, _, hchanged.lookup_self,
      Nat.le_trans hle (Nat.le_of_eq (length_overwrite hfield).symm)⟩
  · obtain ⟨_, _, _, hn⟩ := hd
    exact hn
  · rcases hn.2 with ⟨_, hnone⟩ | ⟨_, hshort⟩
    · rw [hx] at hnone
      cases hnone
    · exact absurd (hshort x hx) (Nat.not_lt.mpr (Nat.le_trans hroom hle))

/-- A constructor stores a reference. -/
theorem fill (hf : Furnishing obj room m) {field : Nat}
    (hroom : field * refBytes + refBytes ≤ room) (target : ObjRef) :
    Ends (onHeap (Heap.writeRef obj field target) m) (fun _ => Furnishing obj room)
      (fun e _ => e.OfSize) Fault.Stale :=
  (hf.storeRef hroom target).mono (fun _ _ h => h) (fun _ _ h => h.elim) fun _ hn =>
    hn.1 ▸ .unreserved _

end Furnishing

/-- The operation is refused for a size only, and does not go past any
object. -/
def Fits {α : Type} (act : MutatorM α) (m : Mutator) : Prop :=
  Ends (act m) (fun _ => Grounded) (fun e _ => e.OfSize) Fault.Stale

theorem Fits.run {α : Type} {act : MutatorM α} (h : Fits act m) :
    Fits (do let _ ← act : MutatorM Unit) m := Ends.bind h fun _ _ h => h

section

variable (hg : m.Grounded)
include hg

theorem fits_pair (car cdr : ObjRef) : Fits (pair car cdr) m := by
  refine Ends.bind (alloc_furnishing hg _ nofun) fun obj m₁ h₁ => ?_
  refine Ends.bind (h₁.fill (by decide) car) fun _ m₂ h₂ => ?_
  exact Ends.bind (h₂.fill (by decide) cdr) fun _ m₃ h₃ => h₃.grounded

theorem fits_cell (value : ObjRef) (n : Int64) : Fits (cell value n) m := by
  refine Ends.bind (alloc_furnishing hg _ nofun) fun obj m₁ h₁ => ?_
  refine Ends.bind (h₁.fill (show _ ≤ numberOffset + 8 by decide) value) fun _ m₂ h₂ => ?_
  refine Ends.bind (h₂.storeBytes ?_).widen fun _ m₃ h₃ => h₃.grounded
  rw [LittleEndian.length_encode]
  exact Nat.le_refl _

theorem fits_intVec (values : List Int64) : Fits (intVec values) m := by
  refine Ends.bind (alloc_furnishing hg _ nofun) fun obj m₁ h₁ => ?_
  refine Ends.bind (h₁.storeBytes ?_).widen fun _ m₂ h₂ => h₂.grounded
  have hbytes : (values.flatMap fun v => LittleEndian.encode 8 v.toUInt64.toNat) =
      encodeWords (values.map Int64.toUInt64) := by rw [encodeWords, List.flatMap_map]
  rw [hbytes, length_encodeWords, List.length_map, Nat.zero_add]
  exact Nat.le_refl _

theorem fits_vector (length : Nat) : Fits (vector length) m := by
  refine Ends.bind (alloc_furnishing hg _ nofun) fun obj m₁ h₁ => Ends.get_bind ?_
  refine Ends.bind (Ends.forM_range (P := fun _ => Furnishing obj (length * refBytes)) h₁
    fun i m₂ hi h₂ => h₂.fill ?_ _) fun _ m₃ h₃ => h₃.grounded
  rw [← Nat.succ_mul]
  exact Nat.mul_le_mul_right _ hi

theorem fits_symbol (id : UInt64) : Fits (symbol id) m := by
  refine Ends.get_bind ?_
  cases m.interned.lookup id with
  | some sym => exact hg
  | none =>
    refine Ends.bind (alloc_furnishing hg _ fun _ e => LengthRule.constant.inj e)
      fun sym m₁ h₁ => Ends.get_bind ?_
    refine Ends.bind (h₁.fill (show _ ≤ numberOffset + 8 by decide) m₁.nil) fun _ m₂ h₂ => ?_
    refine Ends.bind (h₂.storeBytes ?_).widen fun _ m₃ h₃ => ?_
    · rw [LittleEndian.length_encode]
      exact Nat.le_refl _
    · exact h₃.grounded.congr rfl

theorem fits_list (items : List ObjRef) : Fits (list items) m := by
  have hbuilt : ∀ m₀ : Mutator, m₀.Grounded → Fits (items.foldrM rootedPair m.nil) m₀ := by
    intro m₀ h₀
    induction items with
    | nil => exact h₀
    | cons item items ih =>
      show Ends ((item :: items).foldrM rootedPair m.nil m₀) _ _ _
      rw [List.foldrM_cons]
      refine Ends.bind ih fun rest m₁ h₁ => ?_
      exact Ends.bind (fits_pair h₁ item rest) fun obj m₂ h₂ => h₂.congr rfl
  refine restoringRoots_of (Ends.bind_of_eq (pushRoots_eq items m) (Ends.get_bind ?_))
  exact (hbuilt (m.pushed items) (hg.congr rfl)).mono (fun _ _ h => h.congr rfl)
    (fun _ _ h => h) fun _ h => h

end

/-- Whether a command makes an object. -/
def Command.constructs : Command → Bool
  | .symbol _ | .intVec _ | .pair _ _ | .cell _ _ | .vector _ | .list _ => true
  | _ => false

/-- **A constructor fits**, whatever it is given. -/
theorem fits_run (hg : m.Grounded) {c : Command} (hc : c.constructs = true) : Fits c.run m := by
  cases c with
  | symbol id => exact (fits_symbol hg id).run
  | intVec values => exact (fits_intVec hg values).run
  | pair car cdr => exact (fits_pair hg car cdr).run
  | cell value n => exact (fits_cell hg value n).run
  | vector length => exact (fits_vector hg length).run
  | list items => exact (fits_list hg items).run
  | setCar | setCdr | setCellValue | setSymbolValue | vectorSet => cases hc
  | pushRoot | popRoot | setRoot | truncateRoots | setAutoCollect | collect => cases hc

end Mutator

end SegmentedHeap
