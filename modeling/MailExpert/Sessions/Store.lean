import MailExpert.Lib.Table
import MailExpert.Lib.TransitionSystem

/-!
# The guarded session store

`utils/sessionStore.js` in front of the store of one session id. A request holds a copy of the session, a `Session` object;
a `set` takes the copy's fields and its baseline when it is called, and writes when the store answers: what is stored then,
with the fields that differ between the two. The read and the write of a `set` are one step here, and its callback runs with
it, since a store answers in the order it wrote.

`Copy.seen` is history: what the request read, and each time it wrote, latest first.
-/

namespace MailExpert.Sessions

abbrev Field := String

/-- Fields by name, each as JSON text; a field that is `undefined` is one that is not there. -/
abbrev Fields := Table Field String

structure Stored where
  cookie : String
  fields : Fields

/-- A `set` that the store has not answered: what it took when it was called. -/
structure Save where
  /-- `baseOf.get(sess)` -/
  base : Option Fields
  mine : Fields
  cookie : String

/-- A `Session` object of a request. -/
structure Copy where
  cookie : String
  fields : Fields
  /-- Its entry of `baseOf`; a session from `generate` has none before its first write. -/
  base : Option Fields
  /-- It was read from the store. -/
  loaded : Bool
  saves : List Save := []
  seen : List Fields

/-- `withFields` -/
def withFields (target fields : Fields) (keys : List Field) : Fields :=
  keys.foldl (fun target key => match fields.lookup key with
    | none => target.erase key
    | some json => target.insert key json) target

def changed (base mine : Fields) : List Field :=
  (base.keys ++ mine.keys).dedup.filter fun key => base.lookup key ≠ mine.lookup key

/-- How the store answers the calls of a `set`. -/
inductive Answer
  | done
  /-- A call failed. -/
  | failed
  /-- The write was made, and its answer was an error. -/
  | lost
  deriving DecidableEq

/-- What a `set` leaves in the store, and whether it wrote. -/
def Save.write (w : Save) (store : Option Stored) : Option Stored × Bool :=
  match w.base with
  | none => (some { cookie := w.cookie, fields := withFields ∅ w.mine w.mine.keys }, true)
  | some base =>
    match store with
    | none => (none, false)
    | some stored =>
      if changed base w.mine = [] then (some stored, false)
      else (some { cookie := w.cookie, fields := withFields stored.fields w.mine (changed base w.mine) }, true)

structure State where
  store : Option Stored
  copies : List Copy

namespace Copy

/-- `createSession` -/
def createSession (stored : Stored) : Copy where
  cookie := stored.cookie
  fields := stored.fields
  base := some stored.fields
  loaded := true
  seen := [stored.fields]

/-- `generate`, of a new visitor or a sign-in -/
def generate (cookie : String) : Copy where
  cookie := cookie
  fields := ∅
  base := none
  loaded := false
  seen := []

/-- `set`, up to its first call of the store -/
def set (c : Copy) : Copy := { c with saves := c.saves ++ [{ base := c.base, mine := c.fields, cookie := c.cookie }] }

/-- `written`, of the save at `i` -/
def written (c : Copy) (i : Nat) (w : Save) (moved : Bool) : Copy :=
  { c with
    saves := c.saves.eraseIdx i
    base := if moved then some w.mine else c.base
    seen := if moved then w.mine :: c.seen else c.seen }

end Copy

inductive Label
  | load
  | generate (cookie : String)
  /-- A request sets a field of its copy, or deletes it. -/
  | edit (c : Nat) (key : Field) (json : Option String)
  | renew (c : Nat) (cookie : String)
  | save (c : Nat)
  /-- The store answers the save at `i` of the copy. -/
  | store (c i : Nat) (answer : Answer)
  | destroy

def step (s : State) : Label → Option State
  | .load => s.store.map fun stored => { s with copies := s.copies ++ [.createSession stored] }
  | .generate cookie => some { s with copies := s.copies ++ [.generate cookie] }
  | .edit c key json => some { s with copies := s.copies.modify c fun copy => { copy with
      fields := match json with
        | none => copy.fields.erase key
        | some json => copy.fields.insert key json } }
  | .renew c cookie => some { s with copies := s.copies.modify c fun copy => { copy with cookie := cookie } }
  | .save c => some { s with copies := s.copies.modify c .set }
  | .store c i answer =>
    match s.copies[c]? with
    | none => none
    | some copy =>
      match copy.saves[i]? with
      | none => none
      | some w => some {
          store := if answer = .failed then s.store else (w.write s.store).1
          copies := s.copies.set c (copy.written i w (answer = .done && (w.write s.store).2)) }
  | .destroy => some { s with store := none }

def system : TransitionSystem State Label where
  init s := s.copies = []
  step := step

variable {s s' : State} {c i : Nat} {copy : Copy} {w : Save} {base mine fields known : Fields} {key : Field}

theorem mem_changed : key ∈ changed base mine ↔ base.lookup key ≠ mine.lookup key := by
  rw [changed, List.mem_filter, List.mem_dedup, List.mem_append]
  constructor
  · rintro ⟨-, h⟩
    simpa using h
  · intro h
    refine ⟨?_, by simpa using h⟩
    by_contra hnot
    rw [not_or, ← AList.mem_keys.not, ← AList.mem_keys.not] at hnot
    exact h ((AList.lookup_eq_none.mpr hnot.1).trans (AList.lookup_eq_none.mpr hnot.2).symm)

theorem changed_eq_nil : changed base mine = [] ↔ ∀ key, base.lookup key = mine.lookup key := by
  rw [List.eq_nil_iff_forall_not_mem]
  refine forall_congr' fun key => ?_
  rw [mem_changed, not_not]

theorem lookup_withFields {target : Fields} {keys : List Field} :
    (withFields target fields keys).lookup key = if key ∈ keys then fields.lookup key else target.lookup key := by
  induction keys generalizing target with
  | nil => simp [withFields]
  | cons k keys ih =>
    rw [withFields, List.foldl_cons]
    refine ih.trans ?_
    by_cases hmem : key ∈ keys
    · simp [hmem]
    · rw [if_neg hmem]
      by_cases heq : key = k
      · subst heq
        rw [if_pos List.mem_cons_self]
        split
        next hnone => rw [hnone, Table.lookup_erase', if_pos rfl]
        next hsome => rw [hsome, Table.lookup_insert', if_pos rfl]
      · rw [if_neg (by simp [heq, hmem])]
        split
        · rw [Table.lookup_erase', if_neg heq]
        · rw [Table.lookup_insert', if_neg heq]

/-- A save with a baseline changes the fields that differ from it. -/
theorem write_some (hbase : w.base = some base) (stored : Stored) : ∃ stored', (w.write (some stored)).1 = some stored' ∧
    ∀ key, stored'.fields.lookup key = if base.lookup key = w.mine.lookup key then stored.fields.lookup key else w.mine.lookup key := by
  rw [Save.write, hbase]
  dsimp only
  split
  next hnil =>
    refine ⟨stored, rfl, fun key => ?_⟩
    rw [if_pos (changed_eq_nil.mp hnil key)]
  next =>
    refine ⟨_, rfl, fun key => ?_⟩
    rw [lookup_withFields]
    by_cases heq : base.lookup key = w.mine.lookup key
    · rw [if_pos heq, if_neg fun hmem => mem_changed.mp hmem heq]
    · rw [if_neg heq, if_pos (mem_changed.mpr heq)]

/-- The stored session ends up with the fields that the request changed since it last read or wrote the session, as of the
call of the save, and keeps the others; a session that has ended stays ended. -/
structure Merges (known mine : Fields) (store store' : Option Stored) : Prop where
  ended : store = none → store' = none
  merged : ∀ stored, store = some stored → ∃ stored', store' = some stored' ∧
    (∀ key, mine.lookup key = known.lookup key → stored'.fields.lookup key = stored.fields.lookup key) ∧
    ∀ key, mine.lookup key ≠ known.lookup key → stored'.fields.lookup key = mine.lookup key

/-- The baseline that the save took tells the same fields apart as what the request knows by now, but for those that are stored
with the save's value anyway. -/
def Save.InTime (w : Save) (known : Fields) (store : Option Stored) : Prop :=
  ∀ stored base, store = some stored → w.base = some base → ∀ key,
    (base.lookup key = w.mine.lookup key ↔ known.lookup key = w.mine.lookup key) ∨
      stored.fields.lookup key = w.mine.lookup key

theorem write_merges_iff {store : Option Stored} (hbase : w.base = some base) :
    Merges known w.mine store (w.write store).1 ↔ w.InTime known store := by
  cases store with
  | none =>
    have hnone : (w.write none).1 = none := by rw [Save.write, hbase]
    rw [hnone]
    refine ⟨fun _ stored base h => (by cases h), fun _ => ⟨fun _ => rfl, fun _ h => (by cases h)⟩⟩
  | some stored =>
    obtain ⟨stored', hwrite, hlookup⟩ := write_some hbase stored
    rw [hwrite]
    constructor
    · intro h _ _ hs hb key
      cases hs
      obtain rfl := Option.some.inj (hbase.symm.trans hb)
      obtain ⟨_, hst, hkept, hset⟩ := h.merged stored rfl
      obtain rfl := Option.some.inj hst
      by_cases hk : known.lookup key = w.mine.lookup key
      · by_cases hb : base.lookup key = w.mine.lookup key
        · exact .inl (iff_of_true hb hk)
        · refine .inr ?_
          rw [← hkept key hk.symm, hlookup, if_neg hb]
      · by_cases hb : base.lookup key = w.mine.lookup key
        · refine .inr ?_
          rw [← hset key (Ne.symm hk), hlookup, if_pos hb]
        · exact .inl (iff_of_false hb hk)
    · intro h
      refine ⟨fun h => (by cases h), fun _ hs => ?_⟩
      cases hs
      refine ⟨stored', rfl, fun key hk => ?_, fun key hk => ?_⟩
      · rw [hlookup]
        split
        · rfl
        next hb =>
          have hsame := (h stored base rfl hbase key).resolve_left fun hiff => hb (hiff.mpr hk.symm)
          exact hsame.symm
      · rw [hlookup]
        split
        next hb =>
          exact (h stored base rfl hbase key).resolve_left fun hiff => hk (hiff.mp hb).symm
        · rfl

/-! ## Every run -/

/-- The baseline of a copy is what its request last read or wrote, and one that was read has a baseline, as its saves do. -/
structure Copy.Sound (copy : Copy) : Prop where
  base : copy.base = copy.seen.head?
  loaded : copy.loaded = true → copy.base.isSome = true ∧ ∀ w ∈ copy.saves, w.base.isSome = true

theorem Copy.Sound.set (h : copy.Sound) : copy.set.Sound where
  base := h.base
  loaded hl := by
    refine ⟨(h.loaded hl).1, fun w hw => ?_⟩
    rcases List.mem_append.mp hw with hw | hw
    · exact (h.loaded hl).2 w hw
    · rw [List.mem_singleton.mp hw]
      exact (h.loaded hl).1

theorem Copy.Sound.written {moved : Bool} (h : copy.Sound) : (copy.written i w moved).Sound where
  base := by
    cases moved with
    | true => rfl
    | false => exact h.base
  loaded hl := by
    refine ⟨?_, fun w' hw' => (h.loaded hl).2 w' (List.mem_of_mem_eraseIdx hw')⟩
    cases moved with
    | true => rfl
    | false => exact (h.loaded hl).1

def Sound (s : State) : Prop := ∀ copy ∈ s.copies, copy.Sound

theorem Sound.modify {f : Copy → Copy} (h : Sound s) (hf : ∀ copy, copy.Sound → (f copy).Sound) :
    Sound { s with copies := s.copies.modify c f } := fun copy hmem => by
  obtain ⟨k, hk⟩ := List.mem_iff_getElem?.mp hmem
  have hk : (s.copies.modify c f)[k]? = some copy := hk
  rw [List.getElem?_modify] at hk
  obtain ⟨copy₀, h₀, rfl⟩ := Option.map_eq_some_iff.mp hk
  have h₀ := h copy₀ (List.mem_of_getElem? h₀)
  split
  · exact hf copy₀ h₀
  · exact h₀

theorem Sound.append (h : Sound s) (hcopy : copy.Sound) : Sound { s with copies := s.copies ++ [copy] } := fun copy' hmem => by
  rcases List.mem_append.mp hmem with hmem | hmem
  · exact h copy' hmem
  · exact List.mem_singleton.mp hmem ▸ hcopy

theorem sound_invariant : system.Invariant TransitionSystem.anyStep Sound where
  init hi copy hmem := by
    have hi : _ = [] := hi
    simp [hi] at hmem
  step := by
    intro s l s' h _ hstep
    cases l with
    | load =>
      obtain ⟨stored, -, rfl⟩ := Option.map_eq_some_iff.mp hstep
      exact h.append ⟨rfl, fun _ => ⟨rfl, fun _ hw => absurd hw List.not_mem_nil⟩⟩
    | generate cookie =>
      obtain rfl := Option.some.inj hstep
      exact h.append ⟨rfl, fun hl => by cases hl⟩
    | edit c key json =>
      obtain rfl := Option.some.inj hstep
      exact h.modify fun _ hc => ⟨hc.base, hc.loaded⟩
    | renew c cookie =>
      obtain rfl := Option.some.inj hstep
      exact h.modify fun _ hc => ⟨hc.base, hc.loaded⟩
    | save c =>
      obtain rfl := Option.some.inj hstep
      exact h.modify fun _ hc => hc.set
    | store c i answer =>
      dsimp only [system, step] at hstep
      split at hstep
      · cases hstep
      next copy hcopy =>
        split at hstep
        · cases hstep
        next w _ =>
          obtain rfl := Option.some.inj hstep
          intro copy' hmem
          rcases List.mem_or_eq_of_mem_set hmem with hmem | rfl
          · exact h copy' hmem
          · exact (h copy (List.mem_of_getElem? hcopy)).written
    | destroy =>
      obtain rfl := Option.some.inj hstep
      exact h

theorem store_step (hcopy : s.copies[c]? = some copy) (hw : copy.saves[i]? = some w) {answer : Answer}
    (hstep : step s (.store c i answer) = some s') : s' =
      { store := if answer = .failed then s.store else (w.write s.store).1
        copies := s.copies.set c (copy.written i w (answer = .done && (w.write s.store).2)) } := by
  simp only [step, hcopy, hw] at hstep
  exact (Option.some.inj hstep).symm

/-- In every run, a save of a session that was read writes what its request changed, and nothing else, if and only if it is
in time; one that fails leaves the stored session and what the request knows alone; and the baseline that the next save takes
is what the request last read or wrote, so that it has what changed during a save. -/
theorem save_merges_iff (hs : system.Reachable s) :
    (∀ c i answer copy w s', s.copies[c]? = some copy → copy.loaded = true → copy.saves[i]? = some w → answer ≠ .failed →
      step s (.store c i answer) = some s' → ∃ known, copy.seen.head? = some known ∧
        (Merges known w.mine s.store s'.store ↔ w.InTime known s.store)) ∧
    (∀ c i copy w s', s.copies[c]? = some copy → copy.saves[i]? = some w → step s (.store c i .failed) = some s' →
      s'.store = s.store ∧ s'.copies[c]? = some { copy with saves := copy.saves.eraseIdx i }) ∧
    ∀ copy ∈ s.copies, copy.base = copy.seen.head? := by
  have h := sound_invariant.reachable hs
  refine ⟨fun c i answer copy w s' hcopy hl hw hanswer hstep => ?_, fun c i copy w s' hcopy hw hstep => ?_,
    fun copy hmem => (h copy hmem).base⟩
  · have hsound := h copy (List.mem_of_getElem? hcopy)
    obtain ⟨known, hknown⟩ := Option.isSome_iff_exists.mp (hsound.loaded hl).1
    obtain ⟨base, hbase⟩ := Option.isSome_iff_exists.mp ((hsound.loaded hl).2 w (List.mem_of_getElem? hw))
    refine ⟨known, hsound.base.symm.trans hknown, ?_⟩
    rw [store_step hcopy hw hstep, if_neg hanswer]
    exact write_merges_iff hbase
  · rw [store_step hcopy hw hstep]
    refine ⟨rfl, ?_⟩
    have hc := (List.getElem?_eq_some_iff.mp hcopy).1
    show (s.copies.set c _)[c]? = _
    rw [List.getElem?_set_self hc]
    rfl

def locked : State where
  store := some { cookie := "c", fields := (∅ : Fields).insert "locked" "true" }
  copies := []

theorem locked_init : system.init locked := rfl

/-- An unlock that is saved once. -/
theorem save_merges_iff_unlock : ∃ s copy w s' known, system.Reachable s ∧ s.copies[0]? = some copy ∧ copy.saves[0]? = some w ∧
    step s (.store 0 0 .done) = some s' ∧ copy.seen.head? = some known ∧ Merges known w.mine s.store s'.store ∧
      (s'.store.bind fun stored => stored.fields.lookup "locked") = some "false" := by
  have htrace : (system.exec TransitionSystem.anyStep locked [.load, .edit 0 "locked" (some "false"), .save 0]).any (fun s =>
      s.copies[0]?.any (fun copy => copy.loaded && copy.saves[0]?.any fun w => w.base.any fun base => copy.seen.head?.any fun known =>
        decide (base.entries = known.entries)) &&
      (step s (.store 0 0 .done)).any fun s' => decide ((s'.store.bind fun stored => stored.fields.lookup "locked") = some "false")) = true := by
    decide +kernel
  obtain ⟨s, hs, hp⟩ := TransitionSystem.reaches_of_exec locked_init htrace
  simp only [Bool.and_eq_true, Option.any_eq_true, decide_eq_true_eq] at hp
  obtain ⟨⟨copy, hcopy, hl, w, hw, base, hbase, known, hknown, hsame⟩, s', hstep, hlocked⟩ := hp
  obtain rfl : base = known := AList.ext hsame
  obtain ⟨known, hknown', hiff⟩ := (save_merges_iff hs).1 0 0 .done copy w s' hcopy hl hw (by decide) hstep
  obtain rfl : base = known := Option.some.inj (hknown.symm.trans hknown')
  refine ⟨s, copy, w, s', base, hs, hcopy, hw, hstep, hknown, hiff.mpr fun stored base' _ hb key => .inl ?_, hlocked⟩
  obtain rfl := Option.some.inj (hbase.symm.trans hb)
  exact .rfl

/-- An unlock that is saved twice, the second time before the first save was answered, undoes a lock made in between. -/
theorem save_merges_iff_relock : ∃ s copy w s' known, system.Reachable s ∧ s.copies[0]? = some copy ∧ copy.loaded = true ∧
    copy.saves[0]? = some w ∧ step s (.store 0 0 .done) = some s' ∧ copy.seen.head? = some known ∧
      ¬Merges known w.mine s.store s'.store := by
  have htrace : (system.exec TransitionSystem.anyStep locked [.load, .edit 0 "locked" (some "false"), .save 0, .save 0,
      .store 0 0 .done, .load, .edit 1 "locked" (some "true"), .save 1, .store 1 0 .done]).any (fun s =>
      s.store.any (fun stored => decide (stored.fields.lookup "locked" = some "true")) &&
      s.copies[0]?.any (fun copy => copy.loaded && copy.saves[0]?.any fun w => copy.seen.head?.any fun known =>
        decide (w.mine.lookup "locked" = known.lookup "locked")) &&
      (step s (.store 0 0 .done)).any fun s' => s'.store.any fun stored' =>
        decide (stored'.fields.lookup "locked" = some "false")) = true := by
    decide +kernel
  obtain ⟨s, hs, hp⟩ := TransitionSystem.reaches_of_exec locked_init htrace
  simp only [Bool.and_eq_true, Option.any_eq_true, decide_eq_true_eq] at hp
  obtain ⟨⟨⟨stored, hstored, hlocked⟩, copy, hcopy, hl, w, hw, known, hknown, hsame⟩, s', hstep, stored', hstored', hopen⟩ := hp
  refine ⟨s, copy, w, s', known, hs, hcopy, hl, hw, hstep, hknown, fun h => ?_⟩
  obtain ⟨stored'', hst, hkept, -⟩ := h.merged stored hstored
  obtain rfl := Option.some.inj (hstored'.symm.trans hst)
  have := hkept "locked" hsame
  simp [hlocked, hopen] at this

end MailExpert.Sessions
