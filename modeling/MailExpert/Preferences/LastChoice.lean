import MailExpert.Preferences.Queue
import MailExpert.Lib.Agents

/-!
# The last choice is kept

The values of a key stand in one line: those that were sent, the one that is held, the one that waits for the debounce (`State.line`). What
sends or holds only drops values of the line that another one follows (`Trims`), so the line stays in the order of the schedules and ends with
the last choice.
-/

namespace MailExpert.Preferences

variable {κ ν : Type} {s s' : State κ ν} {key : κ} {i j : Nat} {save : Save κ} {answer : Answer} {exiting : Bool}

section Trims

variable {α : Type} {l l' l'' : List α}

/-- Values that others follow are dropped. -/
structure Trims (l l' : List α) : Prop where
  sublist : l'.Sublist l
  last : l'.getLast? = l.getLast?

theorem Trims.refl : Trims l l := ⟨.refl _, rfl⟩

theorem Trims.of_eq (h : l' = l) : Trims l l' := h ▸ .refl

theorem Trims.trans (h : Trims l l') (h' : Trims l' l'') : Trims l l'' := ⟨h'.sublist.trans h.sublist, h'.last.trans h.last⟩

/-- The later of two values is kept. -/
theorem Trims.later {a b : Option α} {r : List α} : Trims (l ++ (a.toList ++ (b.toList ++ r))) (l ++ ((b.or a).toList ++ r)) := by
  cases b with
  | none => exact .refl
  | some b =>
    refine ⟨(List.Sublist.refl l).append (List.sublist_append_right _ _), ?_⟩
    simp [List.getLast?_append, List.getLast?_cons]

end Trims

def waiting (saves : List (Save κ)) : Nat := saves.countP (!·.released)

/-- What is held waits for a save, and what is pending for the debounce. -/
structure Flight (s : State κ ν) : Prop where
  inFlight : s.inFlight = waiting s.saves
  held : s.inFlight = 0 → s.held = ∅
  pending : s.timer = false → s.pending = ∅
  apart : ∀ (i j : Nat) save save', s.saves[i]? = some save → s.saves[j]? = some save' → save.exiting = false → save'.exiting = false →
    save.released = false → save'.released = false → i = j

theorem waiting_set {saves : List (Save κ)} (save' : Save κ) (hi : saves[i]? = some save) :
    waiting (saves.set i save') + (if save.released then 0 else 1) = waiting saves + (if save'.released then 0 else 1) := by
  obtain ⟨hlen, hsave⟩ := List.getElem?_eq_some_iff.mp hi
  have hpos : save.released = false → 0 < waiting saves := fun hr =>
    List.countP_pos_iff.mpr ⟨save, List.mem_of_getElem? hi, by simp [hr]⟩
  unfold waiting at hpos ⊢
  rw [List.countP_set hlen, hsave]
  cases hr : save.released <;> cases hr' : save'.released <;> simp_all

theorem Flight.free (h : Flight s) : s.inFlight > 0 ∨ s.held = ∅ := by
  by_cases hzero : s.inFlight = 0
  · exact .inr (h.held hzero)
  · exact .inl (by have := h.inFlight; omega)

theorem released_of_inFlight (h : Flight s) (hzero : s.inFlight = 0) (hi : s.saves[i]? = some save) : save.released = true := by
  have hcount : waiting s.saves = 0 := by have := h.inFlight; omega
  simpa using List.countP_eq_zero.mp hcount save (List.mem_of_getElem? hi)

theorem Flight.settles (h : Flight s) (hi : s.saves[i]? = some save) {errors : List (List κ)} :
    Flight { s with saves := s.saves.set i { save with settled := true }, errors } := by
  have hset := waiting_set { save with settled := true } hi
  simp only at hset
  refine ⟨?_, h.held, h.pending, fun k j a b hk hj he he' hr hr' => ?_⟩
  · rw [h.inFlight]
    simp only
    omega
  · rcases (Agents.getElem?_set_some hi).mp hk with ⟨rfl, rfl⟩ | ⟨-, hk⟩ <;>
      rcases (Agents.getElem?_set_some hi).mp hj with ⟨rfl, rfl⟩ | ⟨-, hj⟩
    · rfl
    · exact h.apart i j save b hi hj he he' hr hr'
    · exact h.apart k i a save hk hi he he' hr hr'
    · exact h.apart k j a b hk hj he he' hr hr'

/-- Once the debounce fired and every save is released, nothing waits. -/
theorem Flight.quiet (h : Flight s) (htimer : s.timer = false) (hreleased : ∀ save ∈ s.saves, save.released = true) :
    s.held = ∅ ∧ s.pending = ∅ := by
  refine ⟨h.held ?_, h.pending htimer⟩
  have hnone : waiting s.saves = 0 := List.countP_eq_zero.mpr fun save hmem => by simp [hreleased save hmem]
  rw [h.inFlight, hnone]
  rfl

variable [DecidableEq κ]

@[simp] theorem values_append {l l' : List (Prefs κ ν)} : values (l ++ l') key = values l key ++ values l' key := List.filterMap_append

@[simp] theorem values_cons {p : Prefs κ ν} {l : List (Prefs κ ν)} : values (p :: l) key = (p.lookup key).toList ++ values l key := by
  unfold values
  cases h : p.lookup key <;> simp [h]

@[simp] theorem values_nil : values ([] : List (Prefs κ ν)) key = [] := rfl

@[simp] theorem lookup_assign {target source : Prefs κ ν} : (assign target source).lookup key = (source.lookup key).or (target.lookup key) := by
  unfold assign
  cases h : source.lookup key with
  | none => rw [AList.lookup_union_right (AList.lookup_eq_none.mp h), Option.none_or]
  | some v => rw [AList.lookup_union_left (AList.lookup_isSome.mp (by simp [h])), h, Option.some_or]

theorem lookup_of_keys_nil {prefs : Prefs κ ν} (h : prefs.keys = []) : prefs.lookup key = none :=
  AList.lookup_eq_none.mpr fun hmem => by simp [AList.mem_keys, h] at hmem

theorem lookup_stamp {n : Nat} {prefs : Table κ ν} : (stamp n prefs).lookup key = (prefs.lookup key).map (⟨·, n⟩) := by
  apply Table.lookup_eq_of_forall
  rintro ⟨value, m⟩
  rw [← Table.mem_entries]
  simp only [stamp, List.mem_map, Option.map_eq_some_iff]
  constructor
  · rintro ⟨⟨k, v⟩, hmem, heq⟩
    cases heq
    exact ⟨_, Table.mem_entries.mp hmem, rfl⟩
  · rintro ⟨v, hv, heq⟩
    cases heq
    exact ⟨⟨key, _⟩, Table.mem_entries.mpr hv, rfl⟩

/-- The values of a key that were sent or will be, in order. -/
def State.line (s : State κ ν) (key : κ) : List (Choice ν) := values (s.sent ++ [s.held, s.pending]) key

/-! ## What the operations do to the line -/

theorem line_send {prefs : Prefs κ ν} (hfree : s.inFlight > 0 ∧ exiting = false ∨ s.held = ∅) :
    Trims (values (s.sent ++ [s.held, prefs, s.pending]) key) ((s.send prefs exiting answer).line key) := by
  unfold State.send
  split
  case isTrue hempty => exact .of_eq (by simp [State.line, lookup_of_keys_nil hempty])
  case isFalse =>
    split
    case isTrue => simpa [State.line] using Trims.later
    case isFalse hnow =>
      have hheld : s.held = ∅ := hfree.resolve_left fun h => hnow (by simpa using h)
      cases answer <;> exact .of_eq (by simp [State.line, hheld])

theorem line_flush (hfree : s.inFlight > 0 ∨ s.held = ∅) : Trims (s.line key) ((s.flush exiting answer).line key) := by
  unfold State.flush
  split
  case isTrue =>
    refine .trans ?_ (line_send (.inr rfl))
    simpa [State.line] using Trims.later (r := [])
  case isFalse hexiting =>
    refine .trans (.of_eq ?_) (line_send (hfree.imp (⟨·, by simpa using hexiting⟩) fun h => h))
    simp [State.line]

theorem line_release : Trims (s.line key) ((s.release i save answer).line key) := by
  unfold State.release
  split
  case isTrue => exact .refl
  case isFalse =>
    simp only
    split
    case isTrue =>
      refine .trans (.of_eq ?_) (line_send (.inr rfl))
      simp [State.line]
    case isFalse => exact .refl

/-- The line is in the order of the schedules, and ends with the last choice. -/
structure Ordered (s : State κ ν) : Prop where
  order : ∀ key, (s.line key).Pairwise (·.schedule < ·.schedule)
  scheduled : ∀ key, ∀ choice ∈ s.line key, (s.scheduled[choice.schedule]?).bind (·.lookup key) = some choice.value
  last : ∀ key choice, (values s.uncancelled key).getLast? = some choice → (s.line key).getLast? = some choice

theorem Ordered.trims (h : Ordered s) (hline : ∀ key, Trims (s.line key) (s'.line key)) (hscheduled : s'.scheduled = s.scheduled)
    (huncancelled : s'.uncancelled = s.uncancelled) : Ordered s' where
  order key := (h.order key).sublist (hline key).sublist
  scheduled key choice hmem := hscheduled ▸ h.scheduled key choice ((hline key).sublist.mem hmem)
  last key choice hlast := (hline key).last.trans (h.last key choice (huncancelled ▸ hlast))

theorem Ordered.schedule (h : Ordered s) {prefs : Table κ ν} (hstep : step s (.schedule prefs) = some s') : Ordered s' := by
  cases hstep
  have hline : ∀ key, Trims (s.line key ++ ((prefs.lookup key).map (⟨·, s.scheduled.length⟩)).toList)
      (values (s.sent ++ [s.held, assign s.pending (stamp s.scheduled.length prefs)]) key) := by
    intro key
    have := Trims.later (l := values s.sent key ++ (s.held.lookup key).toList) (a := s.pending.lookup key)
      (b := (prefs.lookup key).map (⟨·, s.scheduled.length⟩)) (r := [])
    simpa [State.line, lookup_stamp] using this
  have hbelow : ∀ key, ∀ choice ∈ s.line key, choice.schedule < s.scheduled.length := fun key choice hmem => by
    obtain ⟨prefs, hprefs, -⟩ := Option.bind_eq_some_iff.mp (h.scheduled key choice hmem)
    exact (List.getElem?_eq_some_iff.mp hprefs).1
  refine ⟨fun key => ?_, fun key choice hmem => ?_, fun key choice hlast => ?_⟩
  · refine List.Pairwise.sublist (hline key).sublist (List.pairwise_append.mpr ⟨h.order key, ?_, fun choice hmem choice' hmem' => ?_⟩)
    · cases prefs.lookup key <;> simp
    · simp only [Option.mem_toList, Option.map_eq_some_iff] at hmem'
      obtain ⟨value, -, rfl⟩ := hmem'
      exact hbelow key choice hmem
  · rcases List.mem_append.mp ((hline key).sublist.mem hmem) with hmem | hmem
    · exact (congrArg (Option.bind · _) (List.getElem?_append_left (hbelow key choice hmem))).trans (h.scheduled key choice hmem)
    · simp only [Option.mem_toList, Option.map_eq_some_iff] at hmem
      obtain ⟨value, hvalue, rfl⟩ := hmem
      simpa using hvalue
  · refine (hline key).last.trans ?_
    simp only [values_append, values_cons, values_nil, List.append_nil, lookup_stamp] at hlast
    cases hvalue : prefs.lookup key with
    | none =>
      simp only [hvalue, Option.map_none, Option.toList_none, List.append_nil] at hlast ⊢
      exact h.last key choice hlast
    | some value => simpa [hvalue] using hlast

theorem Ordered.cancel (h : Ordered s) (hstep : step s .cancel = some s') : Ordered s' := by
  cases hstep
  have hline : ∀ key, (values (s.sent ++ [∅, ∅]) key).Sublist (s.line key) := fun key => by
    simp [State.line]
  exact ⟨fun key => (h.order key).sublist (hline key), fun key choice hmem => h.scheduled key choice ((hline key).mem hmem),
    fun key choice hlast => (by simp at hlast)⟩

theorem Flight.send (h : Flight s) {prefs : Prefs κ ν} : Flight (s.send prefs exiting answer) := by
  unfold State.send
  split
  case isTrue => exact h
  case isFalse =>
    split
    case isTrue hholds => exact ⟨h.inFlight, fun hzero => absurd hholds.1 (by simp only at hzero; omega), h.pending, h.apart⟩
    case isFalse hnow =>
      cases answer with
      | throws => exact ⟨h.inFlight, h.held, h.pending, h.apart⟩
      | nothing => exact ⟨h.inFlight, h.held, h.pending, h.apart⟩
      | promise =>
        refine ⟨by simp [waiting, h.inFlight], fun hzero => ?_, h.pending, fun i j save save' hi hj he he' hr hr' => ?_⟩
        · have := h.inFlight
          simp only at hzero
          omega
        · have hall : exiting = false → s.inFlight = 0 := fun hexiting => by
            have := h.inFlight
            by_contra hne
            exact hnow ⟨by omega, by simpa using hexiting⟩
          rcases Agents.getElem?_append_some.mp hi with hi | ⟨rfl, rfl⟩ <;> rcases Agents.getElem?_append_some.mp hj with hj | ⟨rfl, rfl⟩
          · exact h.apart i j save save' hi hj he he' hr hr'
          · exact absurd hr (by simp [released_of_inFlight h (hall he') hi])
          · exact absurd hr' (by simp [released_of_inFlight h (hall he) hj])
          · rfl

theorem Flight.release (h : Flight s) (hi : s.saves[i]? = some save) : Flight (s.release i save answer) := by
  unfold State.release
  split
  case isTrue => exact h
  case isFalse hwaits =>
    simp only
    have hcount : s.inFlight - 1 = waiting (s.saves.set i { save with released := true }) := by
      have hset := waiting_set { save with released := true } hi
      have := h.inFlight
      simp only [hwaits, if_true, if_false, Bool.false_eq_true] at hset
      omega
    have hapart : ∀ (k j : Nat) a b, (s.saves.set i { save with released := true })[k]? = some a →
        (s.saves.set i { save with released := true })[j]? = some b → a.exiting = false → b.exiting = false → a.released = false →
        b.released = false → k = j := by
      intro k j a b hk hj he he' hr hr'
      rcases (Agents.getElem?_set_some hi).mp hk with ⟨-, rfl⟩ | ⟨-, hk⟩
      · cases hr
      rcases (Agents.getElem?_set_some hi).mp hj with ⟨-, rfl⟩ | ⟨-, hj⟩
      · cases hr'
      exact h.apart k j a b hk hj he he' hr hr'
    split
    case isTrue =>
      refine Flight.send (s := { s with
        saves := s.saves.set i { save with released := true }, inFlight := s.inFlight - 1, held := ∅ }) ?_
      exact ⟨hcount, fun _ => rfl, h.pending, hapart⟩
    case isFalse hmore => exact ⟨hcount, fun hzero => absurd hzero hmore, h.pending, hapart⟩

/-! ## Runs -/

structure Inv (s : State κ ν) : Prop where
  ordered : Ordered s
  flight : Flight s

@[simp] theorem send_history {prefs : Prefs κ ν} : (s.send prefs exiting answer).scheduled = s.scheduled ∧
    (s.send prefs exiting answer).uncancelled = s.uncancelled := by
  unfold State.send
  split
  · exact ⟨rfl, rfl⟩
  · split
    · exact ⟨rfl, rfl⟩
    · cases answer <;> exact ⟨rfl, rfl⟩

theorem flush_history : (s.flush exiting answer).scheduled = s.scheduled ∧ (s.flush exiting answer).uncancelled = s.uncancelled := by
  unfold State.flush
  split <;> exact send_history

theorem release_history : (s.release i save answer).scheduled = s.scheduled ∧ (s.release i save answer).uncancelled = s.uncancelled := by
  unfold State.release
  split
  · exact ⟨rfl, rfl⟩
  · simp only
    split
    · exact send_history
    · exact ⟨rfl, rfl⟩

theorem Inv.flush (h : Inv s) : Inv (s.flush exiting answer) := by
  refine ⟨h.ordered.trims (fun _ => line_flush h.flight.free) flush_history.1 flush_history.2, ?_⟩
  unfold State.flush
  split
  · exact Flight.send (s := { s with timer := false, held := ∅, pending := ∅ }) ⟨h.flight.inFlight, fun _ => rfl, fun _ => rfl, h.flight.apart⟩
  · exact Flight.send (s := { s with timer := false, pending := ∅ }) ⟨h.flight.inFlight, h.flight.held, fun _ => rfl, h.flight.apart⟩

theorem Inv.release (h : Inv s) (hi : s.saves[i]? = some save) : Inv (s.release i save answer) :=
  ⟨h.ordered.trims (fun _ => line_release) release_history.1 release_history.2, h.flight.release hi⟩

theorem inv_invariant : (system (κ := κ) (ν := ν)).Invariant TransitionSystem.anyStep Inv where
  init {s} hinit := by
    subst hinit
    refine ⟨⟨fun key => ?_, fun key choice hmem => ?_, fun key choice hlast => ?_⟩, ?_⟩
    · simp [State.line]
    · simp [State.line] at hmem
    · simp at hlast
    · exact ⟨rfl, fun _ => rfl, fun _ => rfl, fun i _ _ _ hi => (by simp at hi)⟩
  step {s l s'} h _ hstep := by
    cases l with
    | schedule prefs =>
      refine ⟨h.ordered.schedule hstep, ?_⟩
      cases hstep
      exact ⟨h.flight.inFlight, h.flight.held, fun htimer => (by cases htimer), h.flight.apart⟩
    | debounce answer =>
      simp only [system, step] at hstep
      split at hstep <;> cases hstep
      exact (h.flush : Inv (s.flush false answer))
    | flush exiting answer =>
      cases hstep
      exact h.flush
    | settles i rejected =>
      simp only [system, step, Option.bind_eq_bind, Option.bind_eq_some_iff] at hstep
      obtain ⟨save, hi, hstep⟩ := hstep
      split at hstep <;> cases hstep
      exact ⟨h.ordered.trims (fun _ => .refl) rfl rfl, h.flight.settles hi⟩
    | release i answer =>
      simp only [system, step, Option.bind_eq_bind, Option.bind_eq_some_iff] at hstep
      obtain ⟨save, hi, hstep⟩ := hstep
      split at hstep <;> cases hstep
      exact h.release hi
    | settleTimeout i answer =>
      simp only [system, step, Option.bind_eq_bind, Option.bind_eq_some_iff] at hstep
      obtain ⟨save, hi, hstep⟩ := hstep
      split at hstep <;> cases hstep
      exact h.release hi
    | cancel =>
      refine ⟨h.ordered.cancel hstep, ?_⟩
      cases hstep
      exact ⟨h.flight.inFlight, fun _ => rfl, fun _ => rfl, h.flight.apart⟩

/-- In every run the queue keeps the last choice. -/
theorem last_choice_kept (hs : system.Reachable s) : LastChoiceKept s := by
  have h := inv_invariant.reachable hs
  have hsub : ∀ key, (values s.sent key).Sublist (s.line key) := fun key => by simp [State.line]
  refine ⟨fun key => (h.ordered.order key).sublist (hsub key), fun key choice hmem => h.ordered.scheduled key choice ((hsub key).mem hmem),
    h.flight.apart, fun htimer hreleased key choice hlast => ?_⟩
  obtain ⟨hheld, hpending⟩ := h.flight.quiet htimer hreleased
  simpa [State.line, hheld, hpending] using h.ordered.last key choice hlast

/-- A choice that waits behind a save is sent when that is released, after the one before it. -/
theorem last_choice_kept_behind_a_save : ∃ s : State String Nat, LastChoiceKept s ∧
    s.sent.map (·.lookup "theme") = [some ⟨1, 0⟩, some ⟨3, 2⟩] := by
  have htrace : ((system.exec TransitionSystem.anyStep ({} : State String Nat)
      [.schedule (AList.singleton "theme" 1), .debounce .promise, .schedule (AList.singleton "theme" 2), .debounce .promise,
        .schedule (AList.singleton "theme" 3), .flush false .promise, .settles 0 true, .release 0 .nothing]).any fun s =>
        s.sent.map (·.lookup "theme") = [some ⟨1, 0⟩, some ⟨3, 2⟩]) = true := by decide +kernel
  obtain ⟨s, hs, hsent⟩ := TransitionSystem.reaches_of_exec (show system.init _ from rfl) htrace
  exact ⟨s, last_choice_kept hs, by simpa using hsent⟩

end MailExpert.Preferences
