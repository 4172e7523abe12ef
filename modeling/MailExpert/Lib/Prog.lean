import Mathlib

/-!
# Programs that change a state and may throw

What a program (`Prog`) did to the state stays when it throws. `Prog.Spec P m Q E` says that `m`, started where
`P` holds, ends in `Q` or throws in `E`; the rules take a program apart along its structure. A program that asks an
outside world is `Prog.ask`: the world is a function of the calls made so far, and what it answers is logged.
-/

universe u v w

/-- A program over states `σ` that may throw an `ε`. -/
def Prog (σ : Type u) (ε : Type v) (α : Type w) := σ → Except ε α × σ

namespace Prog

variable {σ ε α β : Type} {m : Prog σ ε α} {f : α → Prog σ ε β} {P P' : σ → Prop} {Q Q' : α → σ → Prop}
  {E E' : ε → σ → Prop}

instance : Monad (Prog σ ε) where
  pure a := fun s => (.ok a, s)
  bind m f := fun s =>
    match m s with
    | (.ok a, t) => f a t
    | (.error e, t) => (.error e, t)

def fail (e : ε) : Prog σ ε α := fun s => (.error e, s)

/-- `try … catch`. -/
def orElse (m : Prog σ ε α) (handler : ε → Prog σ ε α) : Prog σ ε α := fun s =>
  match m s with
  | (.ok a, t) => (.ok a, t)
  | (.error e, t) => handler e t

/-- `try … finally`, where what comes finally throws nothing. -/
def andFinally (m : Prog σ ε α) (last : σ → σ) : Prog σ ε α := fun s => ((m s).1, last (m s).2)

def gets (g : σ → α) : Prog σ ε α := fun s => (.ok (g s), s)

def change (g : σ → σ) : Prog σ ε Unit := fun s => (.ok (), g s)

def each (items : List β) (body : β → Prog σ ε Unit) : Prog σ ε Unit :=
  match items with
  | [] => pure ()
  | item :: rest => do
    body item
    each rest body

theorem bind_ok {s t : σ} {a : α} (h : m s = (.ok a, t)) : (m >>= f) s = f a t := by
  change (match m s with
    | (.ok a, t) => f a t
    | (.error e, t) => (.error e, t)) = f a t
  rw [h]

theorem bind_error {s t : σ} {e : ε} (h : m s = (.error e, t)) : (m >>= f) s = (.error e, t) := by
  change (match m s with
    | (.ok a, t) => f a t
    | (.error e, t) => (.error e, t)) = (.error e, t)
  rw [h]

/-! ## Triples -/

def Spec (P : σ → Prop) (m : Prog σ ε α) (Q : α → σ → Prop) (E : ε → σ → Prop) : Prop :=
  ∀ s, P s → (∀ a t, m s = (.ok a, t) → Q a t) ∧ ∀ e t, m s = (.error e, t) → E e t

namespace Spec

theorem ok {a : α} {s t : σ} (h : Spec P m Q E) (hs : P s) (hm : m s = (.ok a, t)) : Q a t := (h s hs).1 a t hm

theorem error {e : ε} {s t : σ} (h : Spec P m Q E) (hs : P s) (hm : m s = (.error e, t)) : E e t := (h s hs).2 e t hm

theorem weaken (h : Spec P m Q E) (hP : ∀ s, P' s → P s) (hQ : ∀ a s, Q a s → Q' a s) (hE : ∀ e s, E e s → E' e s) :
    Spec P' m Q' E' :=
  fun s hs => ⟨fun a t hm => hQ a t (h.ok (hP s hs) hm), fun e t hm => hE e t (h.error (hP s hs) hm)⟩

theorem pre (h : Spec P m Q E) (hP : ∀ s, P' s → P s) : Spec P' m Q E := h.weaken hP (fun _ _ => id) fun _ _ => id

theorem post (h : Spec P m Q E) (hQ : ∀ a s, Q a s → Q' a s) : Spec P m Q' E := h.weaken (fun _ => id) hQ fun _ _ => id

/-- What holds of the state at the start may be used. -/
theorem intro (h : ∀ s, P s → Spec (· = s) m Q E) : Spec P m Q E := fun s hs => h s hs s rfl

theorem pure {a : α} (h : ∀ s, P s → Q a s) : Spec P (Pure.pure a : Prog σ ε α) Q E := by
  intro s hs
  refine ⟨fun b t hm => ?_, fun e t hm => ?_⟩
  · cases hm
    exact h s hs
  · cases hm

theorem fail {e : ε} (h : ∀ s, P s → E e s) : Spec P (Prog.fail e : Prog σ ε α) Q E := by
  intro s hs
  refine ⟨fun b t hm => ?_, fun e t hm => ?_⟩
  · cases hm
  · cases hm
    exact h s hs

theorem bind {R : β → σ → Prop} (h : Spec P m Q E) (hf : ∀ a, Spec (Q a) (f a) R E) : Spec P (m >>= f) R E := by
  intro s hs
  have hbind : (m >>= f) s = match m s with
      | (.ok a, t) => f a t
      | (.error e, t) => (.error e, t) := rfl
  rw [hbind]
  cases hm : m s with
  | mk result t =>
    cases result with
    | ok a => exact hf a t (h.ok hs hm)
    | error e =>
      refine ⟨fun b t' heq => ?_, fun e' t' heq => ?_⟩
      · cases heq
      · cases heq
        exact h.error hs hm

theorem orElse {handler : ε → Prog σ ε α} (h : Spec P m Q E) (hh : ∀ e, Spec (E e) (handler e) Q E') :
    Spec P (m.orElse handler) Q E' := by
  intro s hs
  have horElse : m.orElse handler s = match m s with
      | (.ok a, t) => (.ok a, t)
      | (.error e, t) => handler e t := rfl
  rw [horElse]
  cases hm : m s with
  | mk result t =>
    cases result with
    | ok a =>
      refine ⟨fun b t' heq => ?_, fun e' t' heq => ?_⟩
      · cases heq
        exact h.ok hs hm
      · cases heq
    | error e => exact hh e t (h.error hs hm)

theorem andFinally {last : σ → σ} (h : Spec P m (fun a s => Q a (last s)) fun e s => E e (last s)) :
    Spec P (m.andFinally last) Q E := by
  intro s hs
  refine ⟨fun a t heq => ?_, fun e t heq => ?_⟩
  · obtain ⟨hm, rfl⟩ := Prod.mk.inj heq
    exact h.ok hs (Prod.ext hm rfl)
  · obtain ⟨hm, rfl⟩ := Prod.mk.inj heq
    exact h.error hs (Prod.ext hm rfl)

theorem gets {g : σ → α} : Spec P (Prog.gets g : Prog σ ε α) (fun a s => g s = a ∧ P s) E := by
  intro s hs
  refine ⟨fun a t heq => ?_, fun e t heq => ?_⟩
  · cases heq
    exact ⟨rfl, hs⟩
  · cases heq

theorem change {g : σ → σ} {R : Unit → σ → Prop} (h : ∀ s, P s → R () (g s)) :
    Spec P (Prog.change g : Prog σ ε Unit) R E := by
  intro s hs
  refine ⟨fun a t heq => ?_, fun e t heq => ?_⟩
  · cases heq
    exact h s hs
  · cases heq

theorem ite {c : Prop} [Decidable c] {m' : Prog σ ε α} (h : c → Spec P m Q E) (h' : ¬c → Spec P m' Q E) :
    Spec P (if c then m else m') Q E := by
  split
  next hc => exact h hc
  next hc => exact h' hc

/-- What every round keeps, the loop keeps. -/
theorem each {items : List β} {body : β → Prog σ ε Unit} (h : ∀ item ∈ items, Spec P (body item) (fun _ => P) E) :
    Spec P (Prog.each items body) (fun _ => P) E := by
  induction items with
  | nil => exact pure fun _ hs => hs
  | cons item rest ih =>
    exact bind (h item List.mem_cons_self) fun _ => ih fun i hi => h i (List.mem_cons_of_mem _ hi)

end Spec

/-- Every run of `m`, also one that throws, goes from a state to one that `T` relates it to. -/
def Moves (T : σ → σ → Prop) (m : Prog σ ε α) : Prop := ∀ s, T s (m s).2

namespace Moves

variable {T : σ → σ → Prop}

/-- A relation that a program moves along carries what it keeps. -/
theorem spec (h : Moves T m) (hP : ∀ s t, T s t → P s → P' t) : Spec P m (fun _ => P') fun _ => P' := by
  intro s hs
  have hmove := hP s (m s).2 (h s) hs
  refine ⟨fun a t hm => ?_, fun e t hm => ?_⟩
  · rwa [hm] at hmove
  · rwa [hm] at hmove

theorem change {g : σ → σ} (h : ∀ s, T s (g s)) : Moves T (Prog.change g : Prog σ ε Unit) := h

theorem ite {c : Prop} [Decidable c] {m' : Prog σ ε α} (h : c → Moves T m) (h' : ¬c → Moves T m') :
    Moves T (if c then m else m') := by
  split
  next hc => exact h hc
  next hc => exact h' hc

variable [IsPreorder σ T]

theorem pure {a : α} : Moves T (Pure.pure a : Prog σ ε α) := fun s => refl s

theorem fail {e : ε} : Moves T (Prog.fail e : Prog σ ε α) := fun s => refl s

theorem gets {g : σ → α} : Moves T (Prog.gets g : Prog σ ε α) := fun s => refl s

theorem bind (h : Moves T m) (hf : ∀ a, Moves T (f a)) : Moves T (m >>= f) := by
  intro s
  have hbind : (m >>= f) s = match m s with
      | (.ok a, t) => f a t
      | (.error e, t) => (.error e, t) := rfl
  have hmove := h s
  rw [hbind]
  cases hm : m s with
  | mk result t =>
    rw [hm] at hmove
    cases result with
    | ok a => exact IsTrans.trans _ _ _ hmove (hf a t)
    | error e => exact hmove

theorem orElse {handler : ε → Prog σ ε α} (h : Moves T m) (hh : ∀ e, Moves T (handler e)) :
    Moves T (m.orElse handler) := by
  intro s
  have horElse : m.orElse handler s = match m s with
      | (.ok a, t) => (.ok a, t)
      | (.error e, t) => handler e t := rfl
  have hmove := h s
  rw [horElse]
  cases hm : m s with
  | mk result t =>
    rw [hm] at hmove
    cases result with
    | ok a => exact hmove
    | error e => exact IsTrans.trans _ _ _ hmove (hh e t)

theorem andFinally {last : σ → σ} (h : Moves T m) (hlast : ∀ s, T s (last s)) : Moves T (m.andFinally last) :=
  fun s => IsTrans.trans _ _ _ (h s) (hlast _)

theorem each {items : List β} {body : β → Prog σ ε Unit} (h : ∀ item, Moves T (body item)) :
    Moves T (Prog.each items body) := by
  induction items with
  | nil => exact pure
  | cons item rest ih => exact bind (h item) fun _ => ih

end Moves

section Ask

variable {C : Type} {A : C → Type}

structure Event (A : C → Type) (ε : Type) where
  call : C
  answer : Except ε (A call)

def Event.error? (e : Event A ε) : Option ε :=
  match e.answer with
  | .ok _ => none
  | .error f => some f

/-- What the world answers to a call that comes after `n` others. -/
def World (A : C → Type) (ε : Type) := Nat → (c : C) → Except ε (A c)

/-- A state with the log of all calls so far, the latest first. -/
structure Asking (A : C → Type) (ε τ : Type) where
  log : List (Event A ε)
  own : τ

variable {τ : Type} {E : ε → Asking A ε τ → Prop} {P : Asking A ε τ → Prop}

def Asking.record (s : Asking A ε τ) (e : Event A ε) : Asking A ε τ := { s with log := e :: s.log }

@[simp] theorem Asking.record_own {s : Asking A ε τ} {e : Event A ε} : (s.record e).own = s.own := rfl

@[simp] theorem Asking.record_log {s : Asking A ε τ} {e : Event A ε} : (s.record e).log = e :: s.log := rfl

def ask (world : World A ε) (c : C) : Prog (Asking A ε τ) ε (A c) := fun s =>
  (world s.log.length c, s.record { call := c, answer := world s.log.length c })

theorem Spec.ask {world : World A ε} {c : C} {Q : A c → Asking A ε τ → Prop}
    (hok : ∀ s a, P s → world s.log.length c = .ok a → Q a (s.record { call := c, answer := .ok a }))
    (herror : ∀ s e, P s → world s.log.length c = .error e → E e (s.record { call := c, answer := .error e })) :
    Spec P (ask world c) Q E := by
  intro s hs
  refine ⟨fun a t heq => ?_, fun e t heq => ?_⟩
  · obtain ⟨hw, rfl⟩ := Prod.mk.inj heq
    rw [hw]
    exact hok s a hs hw
  · obtain ⟨hw, rfl⟩ := Prod.mk.inj heq
    rw [hw]
    exact herror s e hs hw

theorem Moves.ask {world : World A ε} {c : C} {T : Asking A ε τ → Asking A ε τ → Prop}
    (h : ∀ s e, e.call = c → T s (s.record e)) : Moves T (ask world c) := fun s => h s _ rfl

end Ask

end Prog
