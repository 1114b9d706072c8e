/-
SegmentedHeap.Proofs.Interning — symbols are stable.

A program asks for symbols by their ids, among all else that it does, and
keeps a record: which symbol it got for which id, and the value that it
set last. There is one symbol for each id, which is never collected. It
still has the id and the value that are in the record whenever it is
looked at, since nothing but a store of a value goes to a symbol, and what
it is bound to is kept as long as it is. The list of symbols is the record
without repetitions, and the table of ids answers as the record does,
whatever was refused; so the list and the table agree.

* `Record`, `Noted` — runs with their records.
* `Interned` — the symbols are as the record says.
* `Interned.note_ends` — **one command** keeps that.
* `symbol_returns_iff` — when a symbol is to be had.
* `Stable`, `symbols_stable` — **what holds in all runs**.
-/
import SegmentedHeap.Proofs.Bystanders

namespace SegmentedHeap

open Model

section

variable {α : Type} [BEq α] [LawfulBEq α] {l : List α} {a : α}

/-- One more at the end of a list does not count if it is there already. -/
theorem eraseDups_concat_of_mem (h : a ∈ l) : (l ++ [a]).eraseDups = l.eraseDups := by
  simp [List.eraseDups_append, List.removeAll, h]

theorem eraseDups_concat_of_not_mem (h : a ∉ l) : (l ++ [a]).eraseDups = l.eraseDups ++ [a] := by
  simp [List.eraseDups_append, List.removeAll, h, List.eraseDups_cons]

end

/-- What is allocated and of a type of the model, is an object of it. -/
theorem Heap.isOf_of_typeOf {h : Heap} {type : ModelType} {p : ObjRef} (hf : h.Formed)
    (ha : h.isAllocated p = true) (ht : h.typeOf p = .ok type.tag) : h.IsOf type p := by
  obtain ⟨v, hv⟩ := (isAllocated_iff_view? hf).mp ha
  obtain ⟨x, spec, hx, hspec, rfl⟩ := (view?_eq_some hf).mp hv
  rw [typeOf_of_view? hf hv] at ht
  exact ⟨x, spec, hx, hspec, Except.ok.inj ht⟩

namespace Mutator

/-! ## Runs with their records -/

/-- What a program remembers of a run. -/
structure Record where
  /-- The ids that it asked for and the symbols that it got, in order. -/
  replies : List (UInt64 × ObjRef) := []
  /-- The value that a symbol was given last. -/
  values : ObjRef → ObjRef

namespace Record

def answer (r : Record) (id : UInt64) (sym : ObjRef) : Record :=
  { r with replies := r.replies ++ [(id, sym)] }

def set (r : Record) (sym value : ObjRef) : Record :=
  { r with values := Function.update r.values sym value }

end Record

/-- The command, with what there is to remember once it has returned. -/
def Command.note : Command → MutatorM (Record → Record)
  | .symbol id => do
    let sym ← Mutator.symbol id
    return (·.answer id sym)
  | .setSymbolValue sym value => do
    Mutator.setSymbolValue sym value
    return (·.set sym value)
  | c => do
    c.run
    return id

/-- The mutators of the runs of a program, with its records. Each reference
that it hands over is proper, and it stores in objects of the right type.
There is nothing to remember of a command that is refused. -/
inductive Noted : Mutator → Record → Prop where
  | create {config : Config} {system : System} {m : Mutator} :
      create config system = .ok m → Noted m { values := fun _ => m.nil }
  | step {m m' : Mutator} {r : Record} {note : Record → Record} (c : Command) : Noted m r →
      (∀ p ∈ c.args, m.heap.Proper p) → c.Typed m.heap → c.note m = .ok note m' →
      Noted m' (note r)
  | refused {m m' : Mutator} {r : Record} {e : HeapError} (c : Command) : Noted m r →
      (∀ p ∈ c.args, m.heap.Proper p) → c.Typed m.heap → c.note m = .error (.refused e) m' →
      Noted m' r

/-- Some commands in a row, refused or not, unless one is handed a reference
that dangles or an object of another type, or meets a fault. -/
def attend : List Command → Mutator → Record → Option (Mutator × Record)
  | [], m, r => some (m, r)
  | c :: cs, m, r =>
    if (∀ p ∈ c.args, m.heap.Proper p) ∧ c.Typed m.heap then
      match c.note m with
      | .ok note m => attend cs m (note r)
      | .error (.refused _) m => attend cs m r
      | .error (.fault _) _ => none
    else none

variable {m m' : Mutator} {r r' : Record} {c : Command} {s sym value : ObjRef} {v : ObjectView}

theorem Noted.attend {cs : List Command} (hn : m.Noted r)
    (ha : attend cs m r = some (m', r')) : m'.Noted r' := by
  induction cs generalizing m r with
  | nil =>
    cases ha
    exact hn
  | cons c cs ih =>
    rw [Mutator.attend] at ha
    split at ha
    · next hall =>
      split at ha
      · next hrun => exact ih (.step c hn hall.1 hall.2 hrun) ha
      · next hrun => exact ih (.refused c hn hall.1 hall.2 hrun) ha
      · cases ha
    · cases ha

theorem leaves_note (hl : Leaves c.note m m') : Leaves c.run m m' := by
  cases c with
  | symbol id => exact leaves_map.mpr (leaves_map.mp hl)
  | setSymbolValue sym value => exact leaves_map.mp hl
  | _ => exact leaves_map.mp hl

theorem Noted.reached (hn : m.Noted r) : m.Reached := by
  induction hn with
  | create hc => exact .create hc
  | step c _ ha _ hc ih => exact .step c ih ha (leaves_note (Or.inl ⟨_, hc⟩))
  | refused c _ ha _ hc ih => exact .step c ih ha (leaves_note (Or.inr ⟨_, hc⟩))

/-! ## The symbols of a run -/

/-- The symbols are those of the record, and show its ids and values. -/
structure Interned (m : Mutator) (r : Record) : Prop where
  listed : m.symbols = (r.replies.map Prod.snd).eraseDups
  nodup : m.symbols.Nodup
  table : ∀ id, m.interned.lookup id = r.replies.lookup id
  answered : ∀ s ∈ r.replies, m.interned.lookup s.1 = some s.2
  shows : ∀ s ∈ r.replies, ∃ v, m.heap.view? s.2 = some v ∧ v.Shows (.symbol s.1 (r.values s.2))
  /-- What is not a symbol yet has not been given a value. -/
  unset : ∀ p, p ∉ m.symbols → r.values p = ⟨0⟩

theorem Consistent.guarded_symbol (hc : m.Consistent) (hs : s ∈ m.symbols) :
    m.heap.Guarded m.tracer s :=
  Or.inl (.root (m.mem_roots_of_symbol s hs) (hc.isAllocated_symbol hs))

namespace Interned

/-- The table has the symbols that were answered. -/
theorem lookup_iff {id : UInt64} (hi : m.Interned r) :
    m.interned.lookup id = some sym ↔ (id, sym) ∈ r.replies := by
  constructor
  · intro hl
    rw [hi.table] at hl
    obtain ⟨before, after, e, _⟩ := List.lookup_eq_some_iff.mp hl
    rw [e]
    exact List.mem_append_right _ List.mem_cons_self
  · exact hi.answered (id, sym)

/-- So has the list. -/
theorem mem_symbols (hi : m.Interned r) : sym ∈ m.symbols ↔ ∃ id, (id, sym) ∈ r.replies := by
  rw [hi.listed, List.mem_eraseDups, List.mem_map]
  constructor
  · rintro ⟨s, hs, rfl⟩
    exact ⟨s.1, hs⟩
  · rintro ⟨id, hs⟩
    exact ⟨_, hs, rfl⟩

theorem mem_symbols_of_mem {s : UInt64 × ObjRef} (hi : m.Interned r) (hs : s ∈ r.replies) :
    s.2 ∈ m.symbols := hi.mem_symbols.mpr ⟨s.1, hs⟩

/-- The list of symbols has those in the table. -/
theorem mem_symbols_iff (hi : m.Interned r) :
    sym ∈ m.symbols ↔ ∃ id, m.interned.lookup id = some sym :=
  hi.mem_symbols.trans (exists_congr fun _ => hi.lookup_iff.symm)

/-- The objects of symbols are all that matters. -/
theorem congr (hi : m.Interned r) (hs : m'.symbols = m.symbols) (he : m'.interned = m.interned)
    (hv : ∀ p ∈ m.symbols, m'.heap.view? p = m.heap.view? p) : m'.Interned r := by
  refine ⟨hs ▸ hi.listed, hs ▸ hi.nodup, he ▸ hi.table, he ▸ hi.answered, fun s hmem => ?_,
    hs ▸ hi.unset⟩
  rw [hv s.2 (hi.mem_symbols_of_mem hmem)]
  exact hi.shows s hmem

theorem untouched (hi : m.Interned r) (hc : m.Consistent) (hu : m.Untouched m') :
    m'.Interned r :=
  hi.congr hu.symbols hu.interned fun _ hp => hu.seen _ (hc.guarded_symbol hp)

/-- A symbol that was there. -/
theorem again {id : UInt64} (hi : m.Interned r) (hl : m.interned.lookup id = some sym) :
    m.Interned (r.answer id sym) := by
  have hreply : (id, sym) ∈ r.replies := hi.lookup_iff.mp hl
  refine ⟨?_, hi.nodup, fun id' => ?_, fun s hs => ?_, fun s hs => ?_, hi.unset⟩
  · rw [Record.answer, List.map_append, List.map_singleton,
      eraseDups_concat_of_mem (List.mem_map.mpr ⟨_, hreply, rfl⟩)]
    exact hi.listed
  · rw [Record.answer, lookup_concat, ← hi.table]
    split
    · next e => rw [e, hl, Option.some_or]
    · rw [Option.or_none]
  · rcases List.mem_append.mp hs with hs | hs
    · exact hi.answered s hs
    · rw [List.mem_singleton.mp hs]
      exact hl
  · rcases List.mem_append.mp hs with hs | hs
    · exact hi.shows s hs
    · rw [List.mem_singleton.mp hs]
      exact hi.shows _ hreply

/-- A new symbol. Its value is nil. -/
theorem added {id : UInt64} (hi : m.Interned r) (hc : m.Consistent)
    (hl : m.interned.lookup id = none) (hd : m.Constructs [] (.symbol id m.nil) sym m') :
    (m'.intern id sym).Interned (r.answer id sym) := by
  have hseen := hd.untouched.seen
  obtain ⟨v, ⟨h', rfl, _, _, hnew, hv⟩, hnil⟩ := hd
  have hfresh : sym ∉ m.symbols := fun hsym =>
    hnew (guarded_mono (fun p hp => mem_pushed_roots.mpr (Or.inr hp)) (hc.guarded_symbol hsym))
  -- a symbol that was not allocated cannot have been a reply
  have hunheard : sym ∉ r.replies.map Prod.snd := fun h =>
    hfresh (hi.listed ▸ List.mem_eraseDups.mpr h)
  -- nor does an id without a symbol have one
  have hunasked : ∀ s ∈ r.replies, s.1 ≠ id := by
    rintro s hs rfl
    cases hl.symm.trans (hi.answered s hs)
  refine ⟨?_, ?_, fun id' => ?_, fun s hs => ?_, fun s hs => ?_, fun p hp => hi.unset p fun h => ?_⟩
  · rw [Record.answer, List.map_append, List.map_singleton, eraseDups_concat_of_not_mem hunheard,
      ← hi.listed]
    rfl
  · rw [intern, ← List.concat_eq_append]
    exact hi.nodup.concat hfresh
  · rw [lookup_intern, Record.answer, lookup_concat, ← hi.table]
    split
    · next e => rw [e, hl, Option.none_or]
    · rw [Option.or_none]
      rfl
  · rw [lookup_intern]
    rcases List.mem_append.mp hs with hs | hs
    · rw [if_neg (hunasked s hs)]
      exact hi.answered s hs
    · rw [List.mem_singleton.mp hs, if_pos rfl]
  · rcases List.mem_append.mp hs with hs | hs
    · obtain ⟨u, hu, hshows⟩ := hi.shows s hs
      exact ⟨u, (hseen _ (hc.guarded_symbol (hi.mem_symbols_of_mem hs))).trans hu, hshows⟩
    · rw [List.mem_singleton.mp hs]
      refine ⟨v, hv, ?_⟩
      rw [Record.answer, hi.unset sym hfresh, ← hc.nil]
      exact hnil
  · exact hp (List.mem_append_left _ h)

/-- **A value is set.** -/
theorem set (hi : m.Interned r) (hsym : sym ∈ m.symbols) (hv : m.heap.view? sym = some v)
    {h' : Heap} (hd : m.heap.Seen sym (v.setRef 0 value) h') :
    (m.withHeap h').Interned (r.set sym value) := by
  have hself : (r.set sym value).values sym = value := Function.update_self ..
  have hother : ∀ p, p ≠ sym → (r.set sym value).values p = r.values p := fun p hp =>
    Function.update_of_ne hp ..
  refine ⟨hi.listed, hi.nodup, hi.table, hi.answered, fun s hs => ?_, fun p hp => ?_⟩
  · obtain ⟨u, hu, hshows⟩ := hi.shows s hs
    by_cases e : s.2 = sym
    · rw [e, hv] at hu
      cases hu
      rw [e, hself]
      exact ⟨_, hd.self, hshows.setRef (i := 0) Nat.one_pos value⟩
    · rw [hother s.2 e]
      exact ⟨u, (hd.others _ e).trans hu, hshows⟩
  · refine (hother p fun e => hp ?_).trans (hi.unset p hp)
    exact e ▸ hsym

/-- A command of which there is nothing to remember. -/
theorem other (hi : m.Interned r) (hr : m.Ready) (ha : ∀ p ∈ c.args, m.heap.Proper p)
    (ht : c.Typed m.heap) (hsymbol : ∀ id, c ≠ .symbol id)
    (htarget : ∀ p, c.target? ≠ some (.symbol, p)) :
    Ends ((do c.run; return id : MutatorM (Record → Record)) m)
      (fun note m' => m'.Interned (note r)) (fun _ m' => m'.Interned r) fun _ => True := by
  have hc := hr.toConsistent
  have hstores : ∀ p ∈ m.symbols, ¬ c.StoresIn p := by
    intro p hp hstores
    obtain ⟨type, htype⟩ := hstores
    rcases ht _ htype with e | e
    · exact hc.named p hp e
    · obtain ⟨id, hs⟩ := hi.mem_symbols.mp hp
      obtain ⟨v, hv, hshows⟩ := hi.shows _ hs
      rw [Heap.typeOf_of_view? hc.serves.formed hv, hshows.tag] at e
      have htype' : ModelType.symbol = type := ModelType.tag_injective (Except.ok.inj e)
      exact htarget p (htype' ▸ htype)
  refine Ends.bind ((run_passes hr c ha).mono (fun _ m' hp => ?_)
    (fun _ _ hu => hi.untouched hc hu) fun _ h => h) fun _ _ hd => hd
  have hsame : m'.symbols = m.symbols ∧ m'.interned = m.interned :=
    hp.symbols.resolve_right fun h => h.elim fun id h => h.elim fun _ h => hsymbol id h.1
  exact hi.congr hsame.1 hsame.2 fun p hmem =>
    hp.seen p (hc.guarded_symbol hmem) (hstores p hmem)

/-- A value is set, unless there is no symbol to set it for. -/
theorem setSymbolValue_ends (hi : m.Interned r) (hc : m.Consistent) (hs : m.heap.Proper sym)
    (hvalue : m.heap.Proper value)
    (ht : sym = .null ∨ m.heap.typeOf sym = .ok ModelType.symbol.tag) :
    Ends (setSymbolValue sym value m) (fun _ m' => m'.Interned (r.set sym value))
      (fun _ m' => m'.Interned r) fun _ => True := by
  have hw := hc.serves.wellFormed
  by_cases hnull : sym = .null
  · refine (onHeap_ends (Heap.writeRef_ends hw sym 0 value)).mono (fun _ _ hd => ?_)
      (fun _ _ hd => ?_) fun _ _ => trivial
    · obtain ⟨_, _, hd⟩ := hd
      obtain ⟨x, _, hx, _⟩ := hd.holder
      exact absurd hnull (hw.toFormed.ne_null_of_lookup hx)
    · obtain ⟨h', rfl, rfl, _⟩ := hd
      exact hi
  · have hsym : sym ∈ m.symbols := hc.serves.interned sym
      (Heap.isOf_of_typeOf hw.toFormed (hs.resolve_left hnull) (ht.resolve_left hnull))
    obtain ⟨id, hmem⟩ := hi.mem_symbols.mp hsym
    obtain ⟨v, hv, hshows⟩ := hi.shows _ hmem
    have hroom : 0 * refBytes + refBytes ≤ v.capacity := hshows.room Nat.one_pos
    refine (onHeap_ends (Heap.writeRef_seen hw hv hroom hvalue)).mono (fun _ _ hd => ?_)
      (fun _ _ hd => hd.elim fun _ hd => hd.2.elim) fun _ h => h.elim
    obtain ⟨h', rfl, hd⟩ := hd
    exact hi.set hsym hv hd

/-- **One command** keeps the symbols as the record says. -/
theorem note_ends (hi : m.Interned r) (hr : m.Ready) (c : Command)
    (ha : ∀ p ∈ c.args, m.heap.Proper p) (ht : c.Typed m.heap) :
    Ends (c.note m) (fun note m' => m'.Interned (note r)) (fun _ m' => m'.Interned r)
      fun _ => True := by
  have hc := hr.toConsistent
  cases c with
  | symbol id =>
    refine Ends.bind ((symbol_shows hr id).mono (fun _ _ hd => hd)
      (fun _ _ hd => hi.untouched hc hd.2.2.untouched) fun _ h => h.elim) fun sym m' hd => ?_
    rcases hd with ⟨rfl, hl⟩ | ⟨hl, _, hd, rfl⟩
    · exact hi.again hl
    · exact hi.added hc hl hd
  | setSymbolValue sym value =>
    exact Ends.bind (hi.setSymbolValue_ends hc (ha sym (by simp [Command.args]))
      (ha value (by simp [Command.args])) (ht _ rfl)) fun _ _ hd => hd
  | _ => exact hi.other hr ha ht (fun _ e => by cases e) fun _ e => by cases e

end Interned

/-- In a new mutator there are no symbols. -/
theorem interned_create {config : Config} {system : System} (hc : create config system = .ok m) :
    m.Interned { values := fun _ => m.nil } := by
  have hnil := (consistent_create hc).nil
  obtain ⟨_, _, _, _, _, rfl⟩ := create_eq_ok hc
  exact ⟨rfl, List.nodup_nil, fun _ => rfl, List.forall_mem_nil _, List.forall_mem_nil _,
    fun _ _ => hnil⟩

theorem Noted.interned (hn : m.Noted r) : m.Interned r := by
  induction hn with
  | create hc => exact interned_create hc
  | step c hn ha ht hc ih => exact (ih.note_ends hn.reached.ready c ha ht).of_ok hc
  | refused c hn ha ht hc ih => exact (ih.note_ends hn.reached.ready c ha ht).of_refused hc

/-! ## Asking for a symbol -/

/-- A symbol is to be had if it is there, or if there is room for one. -/
theorem symbol_returns_iff (hr : m.Ready) (id : UInt64) :
    (∃ sym m', symbol id m = .ok sym m') ↔
      (∃ sym, m.interned.lookup id = some sym) ∨ ∃ obj m', alloc .symbol 1 [] m = .ok obj m' := by
  unfold symbol
  rw [get_bind_eq]
  cases hl : m.interned.lookup id with
  | some sym => exact iff_of_true ⟨sym, m, rfl⟩ (Or.inl ⟨sym, rfl⟩)
  | none =>
    cases ha : alloc .symbol 1 [] m with
    | ok obj m₁ =>
      obtain ⟨v, hm₁, hb⟩ := (alloc_symbol hr).of_ok ha
      obtain ⟨sym, m', hrun, _⟩ := (hm₁.intern hr hb id).returns
      exact iff_of_true ⟨sym, m', (bind_of_ok ha).trans hrun⟩ (Or.inr ⟨obj, m₁, rfl⟩)
    | error e m₁ =>
      refine iff_of_false (fun h => ?_) fun h => ?_
      · obtain ⟨_, _, h⟩ := h
        cases (bind_of_error ha).symm.trans h
      · rcases h with ⟨_, h⟩ | ⟨_, _, h⟩ <;> cases h

/-! ## All runs -/

/-- An object is the symbol of an id, with the value that is in the
record. -/
structure IsSymbol (m : Mutator) (r : Record) (id : UInt64) (sym : ObjRef) : Prop where
  ne_nil : sym ≠ m.nil
  isAllocated : m.heap.isAllocated sym = true
  generationOf : m.heap.generationOf sym = .ok .two
  symbolId : m.symbolId sym = .ok id
  symbolValue : m.symbolValue sym = .ok (r.values sym)
  /-- A value is there, if it is not null. It and what it leads to are seen
  as they are until the program stores in the symbol or in one of them. -/
  bound : r.values sym ≠ .null → m.heap.isAllocated (r.values sym) = true ∧
    ∀ (P : ObjRef → Prop) (m' : Mutator), P sym → P (r.values sym) → Avoiding P m m' →
      ∀ p, m.heap.Leads m.tracer P (r.values sym) p →
        m'.heap.isAllocated p = true ∧ m'.heap.view? p = m.heap.view? p

/-- The symbols are stable. -/
structure Stable (m : Mutator) (r : Record) : Prop where
  symbol : ∀ s ∈ r.replies, m.IsSymbol r s.1 s.2
  /-- There is one symbol for an id, and another one for another id. -/
  unique : ∀ s ∈ r.replies, ∀ t ∈ r.replies, s.1 = t.1 ↔ s.2 = t.2
  /-- The symbols are listed in the order in which they were first had. -/
  listed : m.symbols = (r.replies.map Prod.snd).eraseDups
  nodup : m.symbols.Nodup
  table : ∀ id, m.interned.lookup id = r.replies.lookup id
  mem_symbols_iff : ∀ sym, sym ∈ m.symbols ↔ ∃ id, m.interned.lookup id = some sym
  /-- A symbol that was had once is had again, and nothing happens. -/
  again : ∀ s ∈ r.replies, Mutator.symbol s.1 m = .ok s.2 m
  refused : ∀ id, Ends (Mutator.symbol id m) (fun _ _ => True)
    (fun e m' => e.OfSize ∧ m'.symbols = m.symbols ∧ m'.interned = m.interned) fun _ => False
  returns_iff : ∀ id, (∃ sym m', Mutator.symbol id m = .ok sym m') ↔
    (∃ sym, (id, sym) ∈ r.replies) ∨ ∃ obj m', alloc .symbol 1 [] m = .ok obj m'

theorem Noted.isSymbol {s : UInt64 × ObjRef} (hn : m.Noted r) (hs : s ∈ r.replies) :
    m.IsSymbol r s.1 s.2 := by
  have hi := hn.interned
  have hc := hn.reached.consistent
  have hf := hc.serves.formed
  obtain ⟨v, hv, hshows⟩ := hi.shows s hs
  have hagrees := agrees_of_shows hf hv hshows
  have hisof := Heap.isOf_of_typeOf hf hagrees.isAllocated hagrees.typeOf
  have hrefs : r.values s.2 ∈ m.heap.refsOf m.tracer s.2 := by
    rw [Heap.refsOf, hv]
    exact List.mem_append_left _ (hshows.mem_refs (by simp [Node.refs]))
  refine ⟨fun e => ?_, hagrees.isAllocated, ?_, hagrees.answers.1, hagrees.answers.2, fun hne => ?_⟩
  · rw [e, hc.nil] at hisof
    cases hisof.unique hc.serves.nil
  · obtain ⟨x, spec, hx, hspec, ht⟩ := hisof
    have huncollected := (hc.serves.uncollected _ spec hspec).mpr (Or.inr ht)
    rw [Heap.generationOf_of_lookup hx,
      hc.serves.wellFormed.permanent _ x spec hx hspec huncollected]
  · have hallocated := (hc.sound.yields _ _ hrefs).resolve_left hne
    refine ⟨hallocated, fun P m' hP hvalue ha p hl => ?_⟩
    exact ha.keeps hn.reached (hi.mem_symbols_of_mem hs) hP
      (Relation.ReflTransGen.head ⟨hrefs, hallocated, hvalue⟩ hl)

/-- Two answers are for one id exactly if they are one symbol. -/
theorem Noted.unique {s t : UInt64 × ObjRef} (hn : m.Noted r) (hs : s ∈ r.replies)
    (ht : t ∈ r.replies) : s.1 = t.1 ↔ s.2 = t.2 := by
  constructor
  · intro e
    have hlookup := hn.interned.answered s hs
    rw [e, hn.interned.answered t ht] at hlookup
    exact (Option.some.inj hlookup).symm
  · intro e
    have hid := (hn.isSymbol hs).symbolId
    rw [e, (hn.isSymbol ht).symbolId] at hid
    exact (Except.ok.inj hid).symm

/-- **Symbols are stable**, whatever a program does, and whether or not its
commands are refused. Each id has a symbol of its own, which is neither
collected nor changed but by a store of its value; the value is kept as
long as the symbol is bound to it. The list of symbols and the table of
ids are what the program was answered, and a refused symbol leaves them as
they are, so that it is had as soon as there is room for one. -/
theorem symbols_stable (hn : m.Noted r) : m.Stable r := by
  have hi := hn.interned
  have hr := hn.reached.ready
  exact {
    symbol := fun _ hs => hn.isSymbol hs
    unique := fun _ hs _ ht => hn.unique hs ht
    listed := hi.listed
    nodup := hi.nodup
    table := hi.table
    mem_symbols_iff := fun _ => hi.mem_symbols_iff
    again := fun s hs => by
      unfold Mutator.symbol
      rw [get_bind_eq, hi.answered s hs]
      rfl
    refused := fun id => (symbol_shows hr id).mono (fun _ _ _ => trivial)
      (fun _ _ hd => ⟨hd.2.1, hd.2.2.untouched.symbols, hd.2.2.untouched.interned⟩) fun _ h => h
    returns_iff := fun id => by
      rw [symbol_returns_iff hr]
      exact or_congr_left (exists_congr fun _ => hi.lookup_iff) }

/-- A mutator over three segments that collects before each allocation. -/
def tightMutator : Mutator :=
  (create { Heap.smallConfig with maxSegments := 3, policy := ⟨1, 2, 2⟩ }
    .standard).toOption.get (by decide +kernel)

theorem noted_tightMutator : tightMutator.Noted { values := fun _ => tightMutator.nil } :=
  have hc : create { Heap.smallConfig with maxSegments := 3, policy := ⟨1, 2, 2⟩ } .standard =
      .ok tightMutator := eq_ok_of_toOption (Option.some_get _).symm
  .create hc

/-- Four symbols fill a segment, and a pair that only one of them is bound
to takes the last one. There is room for a fifth symbol once that one is
bound to nil. -/
theorem symbols_stable_refused : ∃ (m m' : Mutator) (r r' : Record), m.Noted r ∧ m'.Noted r' ∧
    r.replies = [(3, ⟨64⟩), (4, ⟨66⟩), (5, ⟨68⟩), (3, ⟨64⟩), (6, ⟨70⟩)] ∧
    (m.tracer.roots, r.values ⟨64⟩) = ([⟨64⟩, ⟨66⟩, ⟨68⟩, ⟨70⟩], ⟨128⟩) ∧
    (m.heap.generationOf ⟨128⟩, returnsFrom (symbol 7) m) = (.ok .two, false) ∧
    r'.replies = r.replies ++ [(7, ⟨128⟩)] ∧ m.Stable r ∧ m'.Stable r' := by
  have hrun : ((attend [.symbol 3, .pair ⟨0⟩ ⟨0⟩, .setSymbolValue ⟨64⟩ ⟨128⟩, .symbol 4, .symbol 5,
      .symbol 3, .symbol 6] tightMutator { values := fun _ => tightMutator.nil }).bind fun s =>
        (attend [.symbol 7, .setSymbolValue ⟨64⟩ ⟨0⟩, .symbol 7] s.1 s.2).map fun t =>
          ((s.2.replies, decide (t.2.replies = s.2.replies ++ [(7, ⟨128⟩)])),
            (s.1.tracer.roots, s.2.values ⟨64⟩),
            (s.1.heap.generationOf ⟨128⟩, returnsFrom (symbol 7) s.1))) =
      some (([(3, ⟨64⟩), (4, ⟨66⟩), (5, ⟨68⟩), (3, ⟨64⟩), (6, ⟨70⟩)], true),
        ([⟨64⟩, ⟨66⟩, ⟨68⟩, ⟨70⟩], ⟨128⟩), (.ok .two, false)) := by
    decide +kernel
  obtain ⟨⟨m, r⟩, hm, hrun⟩ := Option.bind_eq_some_iff.mp hrun
  obtain ⟨⟨m', r'⟩, hm', hfacts⟩ := Option.map_eq_some_iff.mp hrun
  simp only [Prod.mk.injEq] at hfacts ⊢
  obtain ⟨⟨hreplies, hreplies'⟩, hroots, hrefused⟩ := hfacts
  have hn : m.Noted r := noted_tightMutator.attend hm
  have hn' : m'.Noted r' := hn.attend hm'
  exact ⟨m, m', r, r', hn, hn', hreplies, hroots, hrefused, of_decide_eq_true hreplies',
    symbols_stable hn, symbols_stable hn'⟩

end Mutator

end SegmentedHeap
