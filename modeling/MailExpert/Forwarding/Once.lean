import MailExpert.Forwarding.Reservation

/-!
# A rule forwards a letter once

A call sends while the reservation is its own and pending, and only its own calls release it: after a send that may have been accepted the
reservation stays (`Inv.stuck`), so no other call comes to its send.
-/

namespace MailExpert.Forwarding

open Sanitizer (Text codes)
open SendTransport (SendError sendFailureIsDefinite)

variable {toLowerCase : Text → Text} {inherited : Text → Option Text} {hmac : Option (Text → Text)} {s s' : State} {call call' : Call}
  {reply : Reply} {i j id : Nat} {r : Reservation} {row : Option Reservation}

/-- The server accepted it, or may have. -/
def Send.Stuck (x : Send) : Prop := x.accepted = true ∨ x.uncertain = true

/-- The reservation `id` is in place, and nothing was sent that may have been accepted. -/
structure Holds (s : State) (id : Nat) : Prop where
  row : s.row = some ⟨id, .pending⟩
  idle : ∀ x ∈ s.sends, ¬x.Stuck

/-- Nothing was sent under the reservation `id` that may have been accepted. -/
def Idle (s : State) (id : Nat) : Prop := ∀ x ∈ s.sends, x.Stuck → x.reservation ≠ id

theorem Holds.idle_self (h : Holds s id) : Idle s id := fun x hx hs => absurd hs (h.idle x hx)

/-- The send under the reservation `id` was accepted. -/
def Accepted (s : State) (id : Nat) : Prop := ∃ x ∈ s.sends, x.accepted = true ∧ x.reservation = id

def Gone (s : State) (id : Nat) : Prop := ∀ r ∈ s.row, r.id ≠ id

/-- What holds of a call that comes to the `catch`. -/
def CaughtOk (s : State) (id : Nat) (delivered : Bool) (definite : Option Bool) : Prop :=
  delivered = false → definite ≠ some false → Idle s id

def At (s : State) (call : Call) : Prop :=
  match call.pc with
  | .state | .insert | .existing => call.reservation = none ∧ call.looped = false
  | .fetchHeaders id | .source id | .content id | .transport id | .lease id | .sendMail id =>
    call.reservation = some id ∧ call.looped = false ∧ Holds s id
  | .releaseLoop id => call.reservation = some id ∧ Holds s id
  | .mark id => call.reservation = some id ∧ call.looped = false ∧ Accepted s id
  | .unlease id delivered thrown => call.reservation = some id ∧ call.looped = false ∧ (thrown = none → Accepted s id) ∧
      ∀ definite ∈ thrown, CaughtOk s id delivered definite
  | .clean id => call.reservation = some id ∧ Idle s id
  | .done answer => (answer = .sent ∨ answer = .duplicate → ∃ x ∈ s.sends, x.accepted = true) ∧
      (call.looped = true → call.unreleased = false → ∀ id ∈ call.reservation, Gone s id)

/-- What holds of the reservation and the sends. -/
structure Shared (s : State) : Prop where
  row_lt : ∀ r ∈ s.row, r.id < s.nextId
  sent : ∀ r ∈ s.row, r.status = .sent → Accepted s r.id
  stuck : ∀ x ∈ s.sends, x.Stuck → ∃ r ∈ s.row, r.id = x.reservation
  /-- After a send that may have been accepted there is none. -/
  last : ∀ x ∈ s.sends.tail, ¬x.Stuck

structure Inv (s : State) : Prop where
  shared : Shared s
  reservation_lt : ∀ (i : Nat) call, s.calls[i]? = some call → ∀ id ∈ call.reservation, id < s.nextId
  apart : ∀ (i j : Nat) call call', i ≠ j → s.calls[i]? = some call → s.calls[j]? = some call' →
    ∀ id ∈ call.reservation, call'.reservation ≠ some id
  at_ : ∀ (i : Nat) call, s.calls[i]? = some call → At s call

/-- What a step of a call with the reservation `own` leaves to the others. -/
structure Frame (s s' : State) (own : Option Nat) : Prop where
  nextId : s.nextId ≤ s'.nextId
  sends : ∀ x ∈ s.sends, x ∈ s'.sends
  /-- A new send is its own, under a reservation in place. -/
  news : ∀ x ∈ s'.sends, x ∈ s.sends ∨ own = some x.reservation ∧ s.row = some ⟨x.reservation, .pending⟩
  row : ∀ id, own ≠ some id → s.row = some ⟨id, .pending⟩ → s'.row = some ⟨id, .pending⟩
  gone : ∀ id, id < s.nextId → Gone s id → Gone s' id

theorem Frame.refl {own : Option Nat} : Frame s s own := ⟨le_rfl, fun _ hx => hx, fun _ => .inl, fun _ _ h => h, fun _ _ h => h⟩

section

variable {own : Option Nat} (hf : Frame s s' own) (hid : own ≠ some id)
include hf

theorem Frame.accepted (h : Accepted s id) : Accepted s' id := by
  obtain ⟨x, hx, hrest⟩ := h
  exact ⟨x, hf.sends x hx, hrest⟩

include hid

theorem Frame.idle (h : Idle s id) : Idle s' id := by
  intro x hx hs
  rcases hf.news x hx with hx | ⟨hown, -⟩
  · exact h x hx hs
  · rintro rfl
    exact hid hown

theorem Frame.holds (h : Holds s id) : Holds s' id where
  row := hf.row id hid h.row
  idle x hx hs := by
    rcases hf.news x hx with hx | ⟨hown, hrow⟩
    · exact h.idle x hx hs
    · rw [h.row] at hrow
      cases hrow
      exact hid hown

end

theorem At.keeps {own : Option Nat} (h : At s call) (hf : Frame s s' own) (hown : ∀ id ∈ call.reservation, own ≠ some id ∧ id < s.nextId) :
    At s' call := by
  cases hpc : call.pc with
  | state | insert | existing => simpa only [At, hpc] using h
  | fetchHeaders id | source id | content id | transport id | lease id | sendMail id =>
    simp only [At, hpc] at h ⊢
    exact ⟨h.1, h.2.1, hf.holds (hown id h.1).1 h.2.2⟩
  | releaseLoop id =>
    simp only [At, hpc] at h ⊢
    exact ⟨h.1, hf.holds (hown id h.1).1 h.2⟩
  | mark id =>
    simp only [At, hpc] at h ⊢
    exact ⟨h.1, h.2.1, hf.accepted h.2.2⟩
  | unlease id delivered thrown =>
    simp only [At, hpc] at h ⊢
    obtain ⟨hres, hloop, hnone, hcaught⟩ := h
    exact ⟨hres, hloop, fun ht => hf.accepted (hnone ht), fun definite hd hdel hdef => hf.idle (hown id hres).1 (hcaught definite hd hdel hdef)⟩
  | clean id =>
    simp only [At, hpc] at h ⊢
    exact ⟨h.1, hf.idle (hown id h.1).1 h.2⟩
  | done answer =>
    simp only [At, hpc] at h ⊢
    refine ⟨fun hanswer => ?_, fun hloop hun id hid => hf.gone id (hown id hid).2 (h.2 hloop hun id hid)⟩
    obtain ⟨x, hx, hacc⟩ := h.1 hanswer
    exact ⟨x, hf.sends x hx, hacc⟩

/-! ## The statements -/

theorem mem_release (h : r ∈ release row id) : r ∈ row ∧ ¬(r.id = id ∧ r.status = .pending) := by
  obtain ⟨hr, hp⟩ := Option.mem_filter_iff.mp h
  exact ⟨hr, fun hown => by simp [hown.1, hown.2] at hp⟩

theorem release_of_ne (h : r ∈ row) (hne : r.id ≠ id) : r ∈ release row id := Option.mem_filter_iff.mpr ⟨h, by simp [hne]⟩

/-- A call that sent nothing under its reservation may delete it. -/
theorem Shared.release (h : Shared s) (hidle : Idle s id) : Shared { s with row := release s.row id } ∧ Gone { s with row := release s.row id } id := by
  refine ⟨⟨fun r hr => h.row_lt r (mem_release hr).1, fun r hr hs => h.sent r (mem_release hr).1 hs, fun x hx hs => ?_, h.last⟩, fun r hr heq => ?_⟩
  · obtain ⟨r, hr, heq⟩ := h.stuck x hx hs
    exact ⟨r, release_of_ne hr (heq ▸ hidle x hx hs), heq⟩
  · obtain ⟨hr, hnot⟩ := mem_release hr
    cases hs : r.status with
    | pending => exact hnot ⟨heq, hs⟩
    | sent =>
      obtain ⟨x, hx, hacc, hres⟩ := h.sent r hr hs
      exact hidle x hx (.inl hacc) (hres.trans heq)

theorem frame_release : Frame s { s with row := Forwarding.release s.row id } (some id) where
  nextId := le_rfl
  sends _ hx := hx
  news _ hx := .inl hx
  row id' hne hrow := by
    refine release_of_ne hrow ?_
    rintro rfl
    exact hne rfl
  gone _ _ hgone r hr := hgone r (mem_release hr).1

theorem mem_markSent (h : r ∈ markSent row id) : ∃ old ∈ row, r.id = old.id ∧ (r.status = old.status ∨ old.id = id) := by
  obtain ⟨old, hold, rfl⟩ := Option.map_eq_some_iff.mp h
  refine ⟨old, hold, ?_⟩
  by_cases heq : old.id = id
  · exact ⟨by rw [if_pos heq], .inr heq⟩
  · exact ⟨by rw [if_neg heq], .inl (by rw [if_neg heq])⟩

theorem Shared.markSent (h : Shared s) (hacc : Accepted s id) : Shared { s with row := Forwarding.markSent s.row id } where
  row_lt r hr := by
    obtain ⟨old, hold, heq, -⟩ := mem_markSent hr
    exact heq ▸ h.row_lt old hold
  sent r hr hs := by
    obtain ⟨old, hold, heq, hstatus | rfl⟩ := mem_markSent hr
    · exact heq ▸ h.sent old hold (hstatus ▸ hs)
    · exact heq ▸ hacc
  stuck x hx hs := by
    obtain ⟨r, hr, heq⟩ := h.stuck x hx hs
    refine ⟨_, Option.mem_map_of_mem _ hr, ?_⟩
    split <;> exact heq
  last := h.last

theorem frame_markSent : Frame s { s with row := Forwarding.markSent s.row id } (some id) where
  nextId := le_rfl
  sends _ hx := hx
  news _ hx := .inl hx
  row id' hne hrow := by
    have hid : id' ≠ id := by
      rintro rfl
      exact hne rfl
    simp [Forwarding.markSent, hrow, hid]
  gone id' _ hgone r hr heq := by
    obtain ⟨old, hold, hid, -⟩ := mem_markSent hr
    exact hgone old hold (hid.symm.trans heq)

theorem Shared.send (h : Shared s) (hh : Holds s id) (accepted uncertain : Bool) :
    Shared { s with sends := ⟨id, accepted, uncertain⟩ :: s.sends } ∧ Frame s { s with sends := ⟨id, accepted, uncertain⟩ :: s.sends } (some id) := by
  have hsends {x : Send} (hx : x ∈ (⟨id, accepted, uncertain⟩ : Send) :: s.sends) : x = ⟨id, accepted, uncertain⟩ ∨ x ∈ s.sends := List.mem_cons.mp hx
  refine ⟨⟨h.row_lt, fun r hr hs => ?_, fun x hx hs => ?_, hh.idle⟩, le_rfl, fun x hx => List.mem_cons_of_mem _ hx, fun x hx => ?_,
    fun _ _ h => h, fun _ _ h => h⟩
  · obtain ⟨x, hx, hrest⟩ := h.sent r hr hs
    exact ⟨x, List.mem_cons_of_mem _ hx, hrest⟩
  · rcases hsends hx with rfl | hx
    · exact ⟨_, hh.row, rfl⟩
    · exact h.stuck x hx hs
  · rcases hsends hx with rfl | hx
    · exact .inr ⟨rfl, hh.row⟩
    · exact .inl hx

theorem Shared.insert (h : Shared s) (hnone : s.row = none) :
    Shared { s with row := some ⟨s.nextId, .pending⟩, nextId := s.nextId + 1 } ∧
      Frame s { s with row := some ⟨s.nextId, .pending⟩, nextId := s.nextId + 1 } none ∧
      Holds { s with row := some ⟨s.nextId, .pending⟩, nextId := s.nextId + 1 } s.nextId := by
  have hidle : ∀ x ∈ s.sends, ¬x.Stuck := by
    intro x hx hs
    obtain ⟨r, hr, -⟩ := h.stuck x hx hs
    cases hnone.symm.trans hr
  refine ⟨⟨fun r hr => ?_, fun r hr hs => ?_, fun x hx hs => absurd hs (hidle x hx), h.last⟩,
    ⟨Nat.le_succ _, fun _ h => h, fun _ => .inl, fun id _ hrow => ?_, fun id hlt _ r hr => ?_⟩, rfl, hidle⟩
  · cases hr
    exact Nat.lt_succ_self _
  · cases hr
    cases hs
  · cases hnone.symm.trans hrow
  · cases hr
    exact hlt.ne'

/-! ## One answer -/

/-- What an answer leaves: the call, beside the others. -/
structure Next (s s' : State) (call call' : Call) : Prop where
  shared : Shared s'
  at_ : At s' call'
  frame : Frame s s' call.reservation
  reservation : call'.reservation = call.reservation ∨ call'.reservation = some s.nextId ∧ s'.nextId = s.nextId + 1

theorem Next.goes {pc : Pc} (h : Shared s) (hat : At s (call.goes pc)) : Next s s call (call.goes pc) := ⟨h, hat, .refl, .inl rfl⟩

theorem at_caught {delivered : Bool} {definite : Option Bool} (hres : call.reservation = some id) (hloop : call.looped = false)
    (h : CaughtOk s id delivered definite) : At s (call.goes (caught id delivered definite)) := by
  rw [caught]
  split
  next hclean =>
    simp only [Bool.and_eq_true, Bool.not_eq_true', decide_eq_true_eq] at hclean
    exact ⟨hres, h hclean.1 hclean.2⟩
  next =>
    refine ⟨nofun, fun hl => ?_⟩
    cases hloop.symm.trans hl

/-- Before the send every failure comes to the `catch` with nothing sent. -/
theorem Holds.caught {delivered : Bool} {definite : Option Bool} (h : Holds s id) : CaughtOk s id delivered definite := fun _ _ => h.idle_self

variable (toLowerCase inherited hmac) in
theorem fetched_cases (account : Account) (id : Nat) (headers : Headers) : fetched toLowerCase hmac account id headers = .clean id ∨
    fetched toLowerCase hmac account id headers = .releaseLoop id ∨ fetched toLowerCase hmac account id headers = .source id := by
  rw [fetched]
  split
  · exact .inl rfl
  · split
    · exact .inl rfl
    · exact .inr (.inl rfl)
    · exact .inr (.inr rfl)

theorem run_spec (h : Shared s) (hat : At s call) (hrun : call.run toLowerCase inherited hmac s reply = some (s', call')) :
    Next s s' call call' := by
  cases hpc : call.pc with
  | state =>
    simp only [At, hpc] at hat
    cases reply with
    | mailbox state =>
      simp only [Call.run, hpc] at hrun
      cases hrun
      refine .goes h ?_
      split
      · exact ⟨nofun, fun hl => by cases hat.2.symm.trans hl⟩
      · split
        · exact ⟨nofun, fun hl => by cases hat.2.symm.trans hl⟩
        · exact hat
    | failed definite ran =>
      simp only [Call.run, hpc] at hrun
      cases hrun
      exact .goes h ⟨nofun, fun hl => by cases hat.2.symm.trans hl⟩
    | _ => simp [Call.run, hpc] at hrun
  | insert =>
    simp only [At, hpc] at hat
    cases reply with
    | ok =>
      simp only [Call.run, hpc] at hrun
      split at hrun
      next r hrow =>
        cases hrun
        exact .goes h hat
      next hnone =>
        cases hrun
        obtain ⟨hshared, hframe, hholds⟩ := h.insert hnone
        refine ⟨hshared, ?_, hat.1 ▸ hframe, .inr ⟨rfl, rfl⟩⟩
        cases hknown : call.known with
        | true => exact ⟨rfl, hat.2, hholds⟩
        | false => exact ⟨rfl, hat.2, hholds⟩
    | failed definite ran =>
      simp only [Call.run, hpc] at hrun
      cases hrun
      have hdone {s : State} : At s (call.goes (.done .threw)) := ⟨nofun, fun hl => by cases hat.2.symm.trans hl⟩
      split
      next hran =>
        have hnone := Option.isNone_iff_eq_none.mp (Bool.and_eq_true_iff.mp hran).2
        obtain ⟨hshared, hframe, -⟩ := h.insert hnone
        exact ⟨hshared, hdone, hat.1 ▸ hframe, .inl rfl⟩
      next => exact .goes h hdone
    | _ => simp [Call.run, hpc] at hrun
  | existing =>
    simp only [At, hpc] at hat
    cases reply with
    | ok =>
      simp only [Call.run, hpc] at hrun
      cases hrun
      refine .goes h ⟨fun hanswer => ?_, fun hl => by cases hat.2.symm.trans hl⟩
      split at hanswer
      next hsent =>
        obtain ⟨r, hr, hstatus⟩ := (Option.any_eq_true _ _).mp hsent
        obtain ⟨x, hx, hacc, -⟩ := h.sent r hr (of_decide_eq_true hstatus)
        exact ⟨x, hx, hacc⟩
      next => rcases hanswer with hanswer | hanswer <;> cases hanswer
    | failed definite ran =>
      simp only [Call.run, hpc] at hrun
      cases hrun
      exact .goes h ⟨nofun, fun hl => by cases hat.2.symm.trans hl⟩
    | _ => simp [Call.run, hpc] at hrun
  | fetchHeaders id =>
    simp only [At, hpc] at hat
    obtain ⟨hres, hloop, hholds⟩ := hat
    cases reply with
    | headers headers =>
      simp only [Call.run, hpc] at hrun
      cases hrun
      refine ⟨h, ?_, .refl, .inl rfl⟩
      rcases fetched_cases toLowerCase hmac call.account id (parseHeadersInput toLowerCase inherited headers) with heq | heq | heq
      · rw [heq]
        exact ⟨hres, hholds.idle_self⟩
      · rw [heq]
        exact ⟨hres, hholds⟩
      · rw [heq]
        exact ⟨hres, rfl, hholds⟩
    | failed definite ran =>
      simp only [Call.run, hpc] at hrun
      cases hrun
      exact .goes h (at_caught hres hloop hholds.caught)
    | _ => simp [Call.run, hpc] at hrun
  | releaseLoop id =>
    simp only [At, hpc] at hat
    obtain ⟨hres, hholds⟩ := hat
    obtain ⟨hshared, hgone⟩ := h.release hholds.idle_self
    cases reply with
    | ok =>
      simp only [Call.run, hpc] at hrun
      cases hrun
      refine ⟨hshared, ⟨nofun, fun _ _ id' hid' => ?_⟩, hres ▸ frame_release, .inl rfl⟩
      obtain rfl := Option.some.inj (hres.symm.trans hid')
      exact hgone
    | failed definite ran =>
      simp only [Call.run, hpc] at hrun
      cases hrun
      have hcaught {s : State} (hidle : Idle s id) : At s { call with pc := caught id false definite, unreleased := true } := by
        rw [caught]
        split
        · exact ⟨hres, hidle⟩
        · exact ⟨nofun, fun _ => nofun⟩
      split
      · exact ⟨hshared, hcaught hholds.idle_self, hres ▸ frame_release, .inl rfl⟩
      · exact ⟨h, hcaught hholds.idle_self, .refl, .inl rfl⟩
    | _ => simp [Call.run, hpc] at hrun
  | source id =>
    simp only [At, hpc] at hat
    obtain ⟨hres, hloop, hholds⟩ := hat
    cases reply with
    | ok =>
      simp only [Call.run, hpc] at hrun
      cases hrun
      exact .goes h ⟨hres, hloop, hholds⟩
    | missing | failed =>
      simp only [Call.run, hpc] at hrun
      cases hrun
      exact .goes h (at_caught hres hloop hholds.caught)
    | _ => simp [Call.run, hpc] at hrun
  | content id =>
    simp only [At, hpc] at hat
    obtain ⟨hres, hloop, hholds⟩ := hat
    cases reply with
    | ok =>
      simp only [Call.run, hpc] at hrun
      cases hrun
      exact .goes h ⟨hres, hloop, hholds⟩
    | failed =>
      simp only [Call.run, hpc] at hrun
      cases hrun
      exact .goes h (at_caught hres hloop hholds.caught)
    | _ => simp [Call.run, hpc] at hrun
  | transport id =>
    simp only [At, hpc] at hat
    obtain ⟨hres, hloop, hholds⟩ := hat
    cases reply with
    | ok =>
      simp only [Call.run, hpc] at hrun
      cases hrun
      refine .goes h ?_
      split
      · exact ⟨hres, hloop, hholds⟩
      · exact ⟨hres, hloop, hholds⟩
    | missing | failed =>
      simp only [Call.run, hpc] at hrun
      cases hrun
      exact .goes h (at_caught hres hloop hholds.caught)
    | _ => simp [Call.run, hpc] at hrun
  | lease id =>
    simp only [At, hpc] at hat
    obtain ⟨hres, hloop, hholds⟩ := hat
    cases reply with
    | ok =>
      simp only [Call.run, hpc] at hrun
      cases hrun
      exact .goes h ⟨hres, hloop, hholds⟩
    | failed =>
      simp only [Call.run, hpc] at hrun
      cases hrun
      exact .goes h (at_caught hres hloop hholds.caught)
    | _ => simp [Call.run, hpc] at hrun
  | sendMail id =>
    simp only [At, hpc] at hat
    obtain ⟨hres, hloop, hholds⟩ := hat
    cases reply with
    | ok =>
      simp only [Call.run, hpc] at hrun
      cases hrun
      obtain ⟨hshared, hframe⟩ := h.send hholds true false
      exact ⟨hshared, ⟨hres, hloop, _, List.mem_cons_self, rfl, rfl⟩, hres ▸ hframe, .inl rfl⟩
    | refused err accepted =>
      simp only [Call.run, hpc] at hrun
      split at hrun
      · cases hrun
      next hnot =>
      cases hrun
      obtain ⟨hshared, hframe⟩ := h.send hholds accepted (!sendFailureIsDefinite err)
      -- a definite failure delivered nothing
      have hcaught : CaughtOk { s with sends := ⟨id, accepted, !sendFailureIsDefinite err⟩ :: s.sends } id false
          (some (sendFailureIsDefinite err)) := by
        intro _ hdefinite x hx hs
        rcases List.mem_cons.mp hx with rfl | hx
        · have hdefinite : sendFailureIsDefinite err = true := Bool.eq_true_of_not_eq_false fun hf => hdefinite (by rw [hf])
          simp only [hdefinite, Bool.true_and] at hnot
          rcases hs with hs | hs
          · exact absurd hs hnot
          · simp [hdefinite] at hs
        · exact absurd hs (hholds.idle x hx)
      refine ⟨hshared, ?_, hres ▸ hframe, .inl rfl⟩
      split
      · exact ⟨hres, hloop, nofun, fun definite heq => Option.some.inj heq ▸ hcaught⟩
      · exact at_caught hres hloop hcaught
    | _ => simp [Call.run, hpc] at hrun
  | mark id =>
    simp only [At, hpc] at hat
    obtain ⟨hres, hloop, hacc⟩ := hat
    have hsent {s' : State} (hacc : Accepted s' id) : At s' (call.goes (if call.managed then .unlease id true none else .done .sent)) := by
      split
      · exact ⟨hres, hloop, fun _ => hacc, nofun⟩
      · obtain ⟨x, hx, hxacc, -⟩ := hacc
        exact ⟨fun _ => ⟨x, hx, hxacc⟩, fun hl => by cases hloop.symm.trans hl⟩
    have hthrew {s' : State} {definite : Option Bool} :
        At s' (call.goes (if call.managed then .unlease id true (some definite) else caught id true definite)) := by
      have hcaught {definite : Option Bool} : CaughtOk s' id true definite := fun hd => by cases hd
      split
      · exact ⟨hres, hloop, nofun, fun _ _ => hcaught⟩
      · exact at_caught hres hloop hcaught
    cases reply with
    | ok =>
      simp only [Call.run, hpc] at hrun
      cases hrun
      exact ⟨h.markSent hacc, hsent hacc, hres ▸ frame_markSent, .inl rfl⟩
    | failed definite ran =>
      simp only [Call.run, hpc] at hrun
      cases hrun
      split
      · exact ⟨h.markSent hacc, hthrew, hres ▸ frame_markSent, .inl rfl⟩
      · exact ⟨h, hthrew, .refl, .inl rfl⟩
    | _ => simp [Call.run, hpc] at hrun
  | unlease id delivered thrown =>
    simp only [At, hpc] at hat
    obtain ⟨hres, hloop, hacc, hcaught⟩ := hat
    cases reply with
    | ok =>
      simp only [Call.run, hpc] at hrun
      cases hrun
      refine .goes h ?_
      cases thrown with
      | some definite => exact at_caught hres hloop (hcaught definite rfl)
      | none =>
        obtain ⟨x, hx, hxacc, -⟩ := hacc rfl
        exact ⟨fun _ => ⟨x, hx, hxacc⟩, fun hl => by cases hloop.symm.trans hl⟩
    | _ => simp [Call.run, hpc] at hrun
  | clean id =>
    simp only [At, hpc] at hat
    obtain ⟨hres, hidle⟩ := hat
    obtain ⟨hshared, hgone⟩ := h.release hidle
    cases reply with
    | ok =>
      simp only [Call.run, hpc] at hrun
      cases hrun
      refine ⟨hshared, ⟨nofun, fun _ _ id' hid' => ?_⟩, hres ▸ frame_release, .inl rfl⟩
      obtain rfl := Option.some.inj (hres.symm.trans hid')
      exact hgone
    | failed definite ran =>
      simp only [Call.run, hpc] at hrun
      cases hrun
      split
      · exact ⟨hshared, ⟨nofun, fun _ => nofun⟩, hres ▸ frame_release, .inl rfl⟩
      · exact ⟨h, ⟨nofun, fun _ => nofun⟩, .refl, .inl rfl⟩
    | _ => simp [Call.run, hpc] at hrun
  | done answer => simp [Call.run, hpc] at hrun

/-! ## Runs -/

theorem At.calls {calls : List Call} (h : At s call) (hres : ∀ id ∈ call.reservation, id < s.nextId) : At { s with calls } call := by
  have hframe : Frame s { s with calls } none := ⟨le_rfl, fun _ h => h, fun _ => .inl, fun _ _ h => h, fun _ _ h => h⟩
  exact h.keeps hframe fun id hid => ⟨nofun, hres id hid⟩

theorem Next.lt (h : Inv s) (hi : s.calls[i]? = some call) (hn : Next s s' call call') : ∀ id ∈ call'.reservation, id < s'.nextId := by
  intro id hid
  rcases hn.reservation with hres | ⟨hres, hnext⟩
  · exact (h.reservation_lt i call hi id (hres ▸ hid)).trans_le hn.frame.nextId
  · obtain rfl := Option.some.inj (hres.symm.trans hid)
    rw [hnext]
    exact Nat.lt_succ_self _

theorem Inv.add (h : Inv s) (hres : call.reservation = none) (hat : At s call) : Inv { s with calls := s.calls ++ [call] } where
  shared := ⟨h.shared.row_lt, h.shared.sent, h.shared.stuck, h.shared.last⟩
  reservation_lt i c hc id hid := by
    rcases Agents.getElem?_append_some.mp hc with hc | ⟨-, rfl⟩
    · exact h.reservation_lt i c hc id hid
    · cases hres.symm.trans hid
  apart i j c c' hij hc hc' id hid hid' := by
    rcases Agents.getElem?_append_some.mp hc with hc | ⟨-, rfl⟩
    · rcases Agents.getElem?_append_some.mp hc' with hc' | ⟨-, rfl⟩
      · exact h.apart i j c c' hij hc hc' id hid hid'
      · cases hres.symm.trans hid'
    · cases hres.symm.trans hid
  at_ i c hc := by
    rcases Agents.getElem?_append_some.mp hc with hc | ⟨-, rfl⟩
    · exact (h.at_ i c hc).calls (h.reservation_lt i c hc)
    · refine hat.calls fun id hid => ?_
      cases hres.symm.trans hid

theorem Inv.set (h : Inv s) (hi : s.calls[i]? = some call) (hn : Next s s' call call') :
    Inv { s' with calls := s.calls.set i call' } where
  shared := ⟨hn.shared.row_lt, hn.shared.sent, hn.shared.stuck, hn.shared.last⟩
  reservation_lt j c hc id hid := by
    rcases (Agents.getElem?_set_some hi).mp hc with ⟨-, rfl⟩ | ⟨-, hj⟩
    · exact hn.lt h hi id hid
    · exact (h.reservation_lt j c hj id hid).trans_le hn.frame.nextId
  apart j k c c' hjk hc hc' id hid := by
    have hother {l : Nat} {b : Call} (hil : i ≠ l) (hl : s.calls[l]? = some b) : ∀ id ∈ call'.reservation, b.reservation ≠ some id := by
      intro id hid hb
      rcases hn.reservation with hres | ⟨hres, -⟩
      · exact h.apart i l call b hil hi hl id (hres ▸ hid) hb
      · obtain rfl := Option.some.inj (hres.symm.trans hid)
        exact absurd (h.reservation_lt l b hl _ hb) (lt_irrefl _)
    rcases (Agents.getElem?_set_some hi).mp hc with ⟨rfl, rfl⟩ | ⟨hij, hj⟩
    · rcases (Agents.getElem?_set_some hi).mp hc' with ⟨rfl, -⟩ | ⟨hik, hk⟩
      · exact absurd rfl hjk
      · exact hother hik hk id hid
    · rcases (Agents.getElem?_set_some hi).mp hc' with ⟨rfl, rfl⟩ | ⟨hik, hk⟩
      · exact fun hid' => hother hij hj id hid' hid
      · exact h.apart j k c c' hjk hj hk id hid
  at_ j c hc := by
    rcases (Agents.getElem?_set_some hi).mp hc with ⟨-, rfl⟩ | ⟨hij, hj⟩
    · exact hn.at_.calls (hn.lt h hi)
    · have hkeeps := (h.at_ j c hj).keeps hn.frame fun id hid =>
        ⟨fun hown => h.apart j i c call hij.symm hj hi id hid hown, h.reservation_lt j c hj id hid⟩
      exact hkeeps.calls fun id hid => (h.reservation_lt j c hj id hid).trans_le hn.frame.nextId

theorem at_begin {account : Account} {managed : Bool} {known : Option Headers} :
    At s { account, managed, known := known.isSome, pc := begin_ toLowerCase hmac account known } := by
  unfold begin_
  split
  · exact ⟨rfl, rfl⟩
  · split
    · exact ⟨nofun, nofun⟩
    · exact ⟨nofun, nofun⟩
    · exact ⟨rfl, rfl⟩

theorem inv_step {l : Label} (h : Inv s) (hstep : step toLowerCase inherited hmac s l = some s') : Inv s' := by
  cases l with
  | call account managed parsedHeaders =>
    obtain rfl := Option.some.inj hstep
    exact h.add rfl at_begin
  | reply i reply =>
    obtain ⟨call, hi, hstep⟩ := Option.bind_eq_some_iff.mp hstep
    obtain ⟨⟨s₁, call'⟩, hrun, hs'⟩ := Option.bind_eq_some_iff.mp hstep
    obtain rfl := Option.some.inj hs'
    exact h.set hi (run_spec h.shared (h.at_ i call hi) hrun)
  | die i =>
    obtain ⟨call, hi, hstep⟩ := Option.bind_eq_some_iff.mp hstep
    have hat := h.at_ i call hi
    have hdied (hloop : call.looped = false) : Next s s call (call.goes (.done .died)) :=
      .goes h.shared ⟨nofun, fun hl => by cases hloop.symm.trans hl⟩
    have hreleasing : Next s s call { call with pc := .done .died, unreleased := true } := ⟨h.shared, ⟨nofun, fun _ => nofun⟩, .refl, .inl rfl⟩
    cases hpc : call.pc with
    | done answer =>
      rw [hpc] at hstep
      cases hstep
    | releaseLoop id | clean id =>
      rw [hpc] at hstep
      cases hstep
      exact h.set hi hreleasing
    | state | insert | existing | fetchHeaders id | source id | content id | transport id | lease id | sendMail id | mark id
    | unlease id delivered thrown =>
      simp only [At, hpc] at hat
      rw [hpc] at hstep
      cases hstep
      exact h.set hi (hdied (by tauto))

theorem inv_invariant : (system toLowerCase inherited hmac).Invariant TransitionSystem.anyStep Inv where
  init := by
    rintro s rfl
    refine ⟨⟨nofun, nofun, nofun, nofun⟩, fun i call h => ?_, fun i j call call' _ h => ?_, fun i call h => ?_⟩
    · cases i <;> cases h
    · cases i <;> cases h
    · cases i <;> cases h
  step h _ := inv_step h

/-- In every run of calls for one rule and one message: the server accepts at most one send; after one that it accepted or may have accepted
there is no other; a call answers `sent` or `duplicate` only when one was accepted; and a call that found a loop leaves no reservation, unless
the statement that deletes it failed. -/
theorem forwards_once (hs : (system toLowerCase inherited hmac).Reachable s) :
    s.sends.countP (·.accepted) ≤ 1 ∧ (∀ x ∈ s.sends.tail, ¬x.Stuck) ∧
    (∀ call ∈ s.calls, (call.pc = .done .sent ∨ call.pc = .done .duplicate) → ∃ x ∈ s.sends, x.accepted = true) ∧
    ∀ call ∈ s.calls, ∀ answer, call.pc = .done answer → call.looped = true → call.unreleased = false →
      ∀ id ∈ call.reservation, Gone s id := by
  have h := inv_invariant.reachable hs
  refine ⟨?_, h.shared.last, fun call hcall hdone => ?_, fun call hcall answer hdone => ?_⟩
  · have hlast := h.shared.last
    cases hsends : s.sends with
    | nil => exact Nat.zero_le _
    | cons x sends =>
      rw [hsends] at hlast
      have hrest : sends.countP (·.accepted) = 0 := List.countP_eq_zero.mpr fun y hy hacc => hlast y hy (.inl hacc)
      rw [List.countP_cons, hrest]
      split <;> omega
  · obtain ⟨i, hi⟩ := List.mem_iff_getElem?.mp hcall
    have hat := h.at_ i call hi
    rcases hdone with hdone | hdone
    · rw [At, hdone] at hat
      exact hat.1 (.inl rfl)
    · rw [At, hdone] at hat
      exact hat.1 (.inr rfl)
  · obtain ⟨i, hi⟩ := List.mem_iff_getElem?.mp hcall
    have hat := h.at_ i call hi
    simp only [At, hdone] at hat
    exact hat.2

/-- The connection breaks after the server took the letter; a later call finds the reservation and throws. -/
theorem forwards_once_uncertain : ∃ s : State, (system exampleLowerCase (fun _ => none) (some exampleDigest)).Reachable s ∧
    s.sends.length = 1 ∧ s.calls.length = 2 ∧ s.sends.countP (·.accepted) ≤ 1 := by
  have htrace : ((system exampleLowerCase (fun _ => none) (some exampleDigest)).exec TransitionSystem.anyStep {}
      [.call ⟨codes "anna@example.com"⟩ false none, .reply 0 (.mailbox (some { enabled := some true })), .reply 0 .ok,
        .reply 0 (.headers (.entries [(codes "from", [codes "b"])])), .reply 0 .ok, .reply 0 .ok, .reply 0 .ok,
        .reply 0 (.refused { message := "" } true), .call ⟨codes "anna@example.com"⟩ false none,
        .reply 1 (.mailbox (some { enabled := some true })), .reply 1 .ok, .reply 1 .ok]).any (fun s =>
        decide (s.sends.length = 1) && decide (s.calls.length = 2)) = true := by
    decide +kernel
  obtain ⟨s, hs, hp⟩ := TransitionSystem.reaches_of_exec rfl htrace
  simp only [Bool.and_eq_true, decide_eq_true_eq] at hp
  exact ⟨s, hs, hp.1, hp.2, (forwards_once hs).1⟩

end MailExpert.Forwarding
