import MailExpert.Lib.Search

/-!
# Regular expressions that backtrack

`run` tries the ways a pattern can match from a state in their order and takes the first one behind which the rest matches, as a backtracking
engine does. `Reaches` says where a pattern can get at all, in no order: `run` finds something where a state can be reached behind which the
rest matches (`run_isSome`), and what it finds comes from such a state (`run_eq_some`). Where a pattern reaches one state only, the order is of
no account (`run_unique`); the lazy `[\s\S]*?` stops at the first place behind which the rest matches (`run_lazy_any`).
-/

universe u

/-- Patterns over characters of any kind. A `star` takes as much as it can first, a `lazyStar` as little. A group keeps its last match; one
inside a repetition keeps it from one iteration to the next. -/
inductive Regex (α : Type u)
  | empty
  | one (p : α → Bool)
  | seq (r q : Regex α)
  | alt (r q : Regex α)
  | star (r : Regex α)
  | lazyStar (r : Regex α)
  | group (n : Nat) (r : Regex α)
  /-- What group `n` matched, once more, up to `same`. -/
  | back (same : α → α) (n : Nat)
  | notAhead (r : Regex α)
  /-- `\b` -/
  | boundary (word : α → Bool)

namespace Regex

variable {α : Type u}

structure State where
  pos : Nat
  caps : Nat → Option (Nat × Nat)

namespace State

def start (i : Nat) : State := ⟨i, fun _ => none⟩

def goto (s : State) (j : Nat) : State := { s with pos := j }

/-- Group `n` has matched from `i` on. -/
def capture (s : State) (n i : Nat) : State := { s with caps := Function.update s.caps n (some (i, s.pos)) }

@[simp] theorem pos_start (i : Nat) : (start i).pos = i := rfl
@[simp] theorem pos_goto (s : State) (j : Nat) : (s.goto j).pos = j := rfl
@[simp] theorem caps_goto (s : State) (j : Nat) : (s.goto j).caps = s.caps := rfl
@[simp] theorem goto_goto (s : State) (i j : Nat) : (s.goto i).goto j = s.goto j := rfl
@[simp] theorem goto_pos (s : State) : s.goto s.pos = s := rfl
@[simp] theorem pos_capture (s : State) (n i : Nat) : (s.capture n i).pos = s.pos := rfl
@[simp] theorem caps_capture (s : State) (n i : Nat) : (s.capture n i).caps n = some (i, s.pos) := Function.update_self ..

end State

open State

/-- A word character on one side only. -/
def atBoundary (word : α → Bool) (t : List α) (i : Nat) : Bool :=
  (decide (0 < i) && (t[i - 1]?).any word) != (t[i]?).any word

/-! ## Repetitions -/

def greedy (body : State → (State → Option State) → Option State) : Nat → State → (State → Option State) → Option State
  | 0, s, k => k s
  | fuel + 1, s, k => (body s fun m => if s.pos < m.pos then greedy body fuel m k else none).or (k s)

def reluctant (body : State → (State → Option State) → Option State) : Nat → State → (State → Option State) → Option State
  | 0, s, k => k s
  | fuel + 1, s, k => (k s).or (body s fun m => if s.pos < m.pos then reluctant body fuel m k else none)

variable {t : List α} {s s' m : State} {k : State → Option State} {v : State} {p : α → Bool}

theorem lt_of_any {c : Nat} (h : (t[c]?).any p = true) : c < t.length := by
  by_contra hle
  rw [List.getElem?_eq_none (by omega)] at h
  cases h

/-- `run` of a pattern takes a state that the pattern reaches, and it takes one where there is one behind which the rest matches. -/
structure Agrees (t : List α) (body : State → (State → Option State) → Option State) (R : State → State → Prop) : Prop where
  sound {s : State} {v : State} {k : State → Option State} : s.pos ≤ t.length → body s k = some v → ∃ m, R s m ∧ k m = some v
  complete {s m : State} {k : State → Option State} : s.pos ≤ t.length → R s m → (k m).isSome → (body s k).isSome

variable {body : State → (State → Option State) → Option State} {R : State → State → Prop} {fuel : Nat}

theorem isSome_or_iff {o o' : Option State} : (o.or o').isSome ↔ o.isSome ∨ o'.isSome := by
  cases o <;> simp

theorem or_eq_some {o o' : Option State} (h : o.or o' = some v) : o = some v ∨ o' = some v := by
  cases o
  · exact .inr h
  · exact .inl h

theorem Agrees.greedy (h : Agrees t body R) (hR : ∀ {a b}, R a b → a.pos ≤ t.length → b.pos ≤ t.length) (hs : s.pos ≤ t.length)
    (hfuel : t.length ≤ s.pos + fuel) :
    (∀ v, greedy body fuel s k = some v → ∃ m, Relation.ReflTransGen (fun a b => R a b ∧ a.pos < b.pos) s m ∧ k m = some v) ∧
      (∀ m, Relation.ReflTransGen (fun a b => R a b ∧ a.pos < b.pos) s m → (k m).isSome → (greedy body fuel s k).isSome) := by
  induction fuel generalizing s with
  | zero =>
    refine ⟨fun v hv => ⟨s, .refl, hv⟩, fun m hm hk => ?_⟩
    rcases hm.cases_head with rfl | ⟨b, ⟨hb, hlt⟩, -⟩
    · exact hk
    · have := hR hb hs
      omega
  | succ fuel ih =>
    constructor
    · intro v hv
      rcases or_eq_some hv with hv | hv
      · obtain ⟨b, hb, hv⟩ := h.sound hs hv
        split at hv
        · rename_i hlt
          obtain ⟨m, hm, hk⟩ := (ih (hR hb hs) (by omega)).1 v hv
          exact ⟨m, hm.head ⟨hb, hlt⟩, hk⟩
        · cases hv
      · exact ⟨s, .refl, hv⟩
    · intro m hm hk
      rw [Regex.greedy, isSome_or_iff]
      rcases hm.cases_head with rfl | ⟨b, ⟨hb, hlt⟩, hm⟩
      · exact .inr hk
      · refine .inl (h.complete hs hb ?_)
        rw [if_pos hlt]
        exact (ih (hR hb hs) (by omega)).2 m hm hk

theorem Agrees.reluctant (h : Agrees t body R) (hR : ∀ {a b}, R a b → a.pos ≤ t.length → b.pos ≤ t.length) (hs : s.pos ≤ t.length)
    (hfuel : t.length ≤ s.pos + fuel) :
    (∀ v, reluctant body fuel s k = some v → ∃ m, Relation.ReflTransGen (fun a b => R a b ∧ a.pos < b.pos) s m ∧ k m = some v) ∧
      (∀ m, Relation.ReflTransGen (fun a b => R a b ∧ a.pos < b.pos) s m → (k m).isSome → (reluctant body fuel s k).isSome) := by
  induction fuel generalizing s with
  | zero =>
    refine ⟨fun v hv => ⟨s, .refl, hv⟩, fun m hm hk => ?_⟩
    rcases hm.cases_head with rfl | ⟨b, ⟨hb, hlt⟩, -⟩
    · exact hk
    · have := hR hb hs
      omega
  | succ fuel ih =>
    constructor
    · intro v hv
      rcases or_eq_some hv with hv | hv
      · exact ⟨s, .refl, hv⟩
      · obtain ⟨b, hb, hv⟩ := h.sound hs hv
        split at hv
        · rename_i hlt
          obtain ⟨m, hm, hk⟩ := (ih (hR hb hs) (by omega)).1 v hv
          exact ⟨m, hm.head ⟨hb, hlt⟩, hk⟩
        · cases hv
    · intro m hm hk
      rw [Regex.reluctant, isSome_or_iff]
      rcases hm.cases_head with rfl | ⟨b, ⟨hb, hlt⟩, hm⟩
      · exact .inl hk
      · refine .inr (h.complete hs hb ?_)
        rw [if_pos hlt]
        exact (ih (hR hb hs) (by omega)).2 m hm hk

/-- The text that group `n` matched stands at the place where the state is. An unset group matches nothing, in any place. -/
def repeats [DecidableEq α] (t : List α) (same : α → α) (n : Nat) (s : State) : Option State :=
  match s.caps n with
  | none => some s
  | some (i, j) =>
    if s.pos + (j - i) ≤ t.length ∧ (Search.slice t s.pos (s.pos + (j - i))).map same = (Search.slice t i j).map same then
      some (s.goto (s.pos + (j - i)))
    else none

/-- An iteration of a repetition that takes nothing is refused, so `t.length - s.pos` of them are enough. -/
def run [DecidableEq α] (t : List α) : Regex α → State → (State → Option State) → Option State
  | empty, s, k => k s
  | one p, s, k => if (t[s.pos]?).any p then k (s.goto (s.pos + 1)) else none
  | seq r q, s, k => run t r s fun m => run t q m k
  | alt r q, s, k => (run t r s k).or (run t q s k)
  | star r, s, k => greedy (run t r) (t.length - s.pos) s k
  | lazyStar r, s, k => reluctant (run t r) (t.length - s.pos) s k
  | group n r, s, k => run t r s fun m => k (m.capture n s.pos)
  | back same n, s, k => (repeats t same n s).bind k
  | notAhead r, s, k => if (run t r s some).isSome then none else k s
  | boundary word, s, k => if atBoundary word t s.pos then k s else none

def matchAt [DecidableEq α] (t : List α) (r : Regex α) (i : Nat) : Option State := run t r (start i) some

/-- `r.exec(t)` with `r.lastIndex = i`: where the match begins and the state at its end. -/
def exec [DecidableEq α] (r : Regex α) (t : List α) (i : Nat) : Option (Nat × State) := Search.first (matchAt t r) t.length i

/-- `r.test(t)` -/
def test [DecidableEq α] (r : Regex α) (t : List α) : Bool := (exec r t 0).isSome

/-- The matches of a global replacement. -/
def allMatches [DecidableEq α] (r : Regex α) (t : List α) : List (Nat × State) := Search.occurrences (matchAt t r) State.pos t.length 0

/-- `t.replace(r, sub)` with the flag `g` -/
def replaceAll [DecidableEq α] (r : Regex α) (sub : Nat → State → List α) (t : List α) : List α :=
  Search.splice sub State.pos t 0 (r.allMatches t)

/-! ## What a pattern can reach -/

variable [DecidableEq α] {r q : Regex α} {i j n : Nat}

def Reaches (t : List α) : Regex α → State → State → Prop
  | empty, s, s' => s' = s
  | one p, s, s' => (t[s.pos]?).any p = true ∧ s' = s.goto (s.pos + 1)
  | seq r q, s, s' => ∃ m, Reaches t r s m ∧ Reaches t q m s'
  | alt r q, s, s' => Reaches t r s s' ∨ Reaches t q s s'
  | star r, s, s' => Relation.ReflTransGen (fun a b => Reaches t r a b ∧ a.pos < b.pos) s s'
  | lazyStar r, s, s' => Relation.ReflTransGen (fun a b => Reaches t r a b ∧ a.pos < b.pos) s s'
  | group n r, s, s' => ∃ m, Reaches t r s m ∧ s' = m.capture n s.pos
  | back same n, s, s' => repeats t same n s = some s'
  | notAhead r, s, s' => (¬ ∃ m, Reaches t r s m) ∧ s' = s
  | boundary word, s, s' => atBoundary word t s.pos = true ∧ s' = s

/-- A pattern goes forward and stays in the text. -/
theorem Reaches.le (h : Reaches t r s s') (hs : s.pos ≤ t.length) : s.pos ≤ s'.pos ∧ s'.pos ≤ t.length := by
  have hclosure {R : State → State → Prop} (hR : ∀ a b, R a b → a.pos ≤ t.length → a.pos ≤ b.pos ∧ b.pos ≤ t.length) {a b : State}
      (hab : Relation.ReflTransGen R a b) (ha : a.pos ≤ t.length) : a.pos ≤ b.pos ∧ b.pos ≤ t.length := by
    induction hab with
    | refl => exact ⟨le_rfl, ha⟩
    | tail _ hstep ih =>
      obtain ⟨h1, h2⟩ := ih
      obtain ⟨h3, h4⟩ := hR _ _ hstep h2
      exact ⟨h1.trans h3, h4⟩
  induction r generalizing s s' with
  | empty => cases h; exact ⟨le_rfl, hs⟩
  | one p =>
    obtain ⟨hp, rfl⟩ := h
    have := lt_of_any hp
    exact ⟨Nat.le_succ _, this⟩
  | seq r q ihr ihq =>
    obtain ⟨m, hr, hq⟩ := h
    obtain ⟨h1, h2⟩ := ihr hr hs
    obtain ⟨h3, h4⟩ := ihq hq h2
    exact ⟨h1.trans h3, h4⟩
  | alt r q ihr ihq => exact h.elim (ihr · hs) (ihq · hs)
  | star r ih => exact hclosure (fun a b hab ha => ih hab.1 ha) h hs
  | lazyStar r ih => exact hclosure (fun a b hab ha => ih hab.1 ha) h hs
  | group n r ih =>
    obtain ⟨m, hr, rfl⟩ := h
    have hm := ih hr hs
    exact hm
  | back same n =>
    rw [Reaches, repeats] at h
    split at h
    · cases h
      exact ⟨le_rfl, hs⟩
    · split at h
      · rename_i hle
        cases h
        exact ⟨Nat.le_add_right .., hle.1⟩
      · cases h
  | notAhead r => obtain ⟨-, rfl⟩ := h; exact ⟨le_rfl, hs⟩
  | boundary word => obtain ⟨-, rfl⟩ := h; exact ⟨le_rfl, hs⟩

theorem agrees (r : Regex α) : Agrees t (run t r) (Reaches t r) := by
  have hle {r : Regex α} {a b : State} (h : Reaches t r a b) (ha : a.pos ≤ t.length) : b.pos ≤ t.length := (h.le ha).2
  induction r with
  | empty => exact ⟨fun _ h => ⟨_, rfl, h⟩, by rintro s m k - rfl hk; exact hk⟩
  | one p =>
    constructor
    · intro s v k _ h
      rw [run] at h
      split at h
      · exact ⟨_, ⟨‹_›, rfl⟩, h⟩
      · cases h
    · rintro s m k - ⟨hp, rfl⟩ hk
      rw [run, if_pos hp]
      exact hk
  | seq r q ihr ihq =>
    constructor
    · intro s v k hs h
      obtain ⟨m, hr, hm⟩ := ihr.sound hs h
      obtain ⟨m', hq, hk⟩ := ihq.sound (hle hr hs) hm
      exact ⟨m', ⟨m, hr, hq⟩, hk⟩
    · rintro s m k hs ⟨m', hr, hq⟩ hk
      exact ihr.complete hs hr (ihq.complete (hle hr hs) hq hk)
  | alt r q ihr ihq =>
    constructor
    · intro s v k hs h
      rcases or_eq_some h with h | h
      · obtain ⟨m, hm, hk⟩ := ihr.sound hs h
        exact ⟨m, .inl hm, hk⟩
      · obtain ⟨m, hm, hk⟩ := ihq.sound hs h
        exact ⟨m, .inr hm, hk⟩
    · intro s m k hs h hk
      rw [run, isSome_or_iff]
      exact h.imp (ihr.complete hs · hk) (ihq.complete hs · hk)
  | star r ih =>
    exact ⟨fun hs h => (ih.greedy hle hs (by omega)).1 _ h, fun hs h hk => (ih.greedy hle hs (by omega)).2 _ h hk⟩
  | lazyStar r ih =>
    exact ⟨fun hs h => (ih.reluctant hle hs (by omega)).1 _ h, fun hs h hk => (ih.reluctant hle hs (by omega)).2 _ h hk⟩
  | group n r ih =>
    constructor
    · intro s v k hs h
      obtain ⟨m, hr, hk⟩ := ih.sound hs h
      exact ⟨_, ⟨m, hr, rfl⟩, hk⟩
    · rintro s m k hs ⟨m', hr, rfl⟩ hk
      exact ih.complete hs hr hk
  | back same n =>
    constructor
    · intro s v k _ h
      exact Option.bind_eq_some_iff.mp h
    · intro s m k _ h hk
      rw [run, show repeats t same n s = some m from h]
      exact hk
  | notAhead r ih =>
    constructor
    · intro s v k hs h
      rw [run] at h
      split at h
      · cases h
      · rename_i hnone
        refine ⟨s, ⟨?_, rfl⟩, h⟩
        rintro ⟨m, hm⟩
        exact hnone (ih.complete hs hm rfl)
    · rintro s m k hs ⟨hnone, rfl⟩ hk
      rw [run, if_neg]
      · exact hk
      · intro hsome
        obtain ⟨v, hv⟩ := Option.isSome_iff_exists.mp hsome
        obtain ⟨m', hm', -⟩ := ih.sound hs hv
        exact hnone ⟨m', hm'⟩
  | boundary word =>
    constructor
    · intro s v k _ h
      rw [run] at h
      split at h
      · exact ⟨_, ⟨‹_›, rfl⟩, h⟩
      · cases h
    · rintro s m k - ⟨hb, rfl⟩ hk
      rw [run, if_pos hb]
      exact hk

theorem run_eq_some (hs : s.pos ≤ t.length) (h : run t r s k = some v) : ∃ m, Reaches t r s m ∧ k m = some v := (agrees r).sound hs h

theorem run_isSome (hs : s.pos ≤ t.length) : (run t r s k).isSome ↔ ∃ m, Reaches t r s m ∧ (k m).isSome := by
  constructor
  · intro h
    obtain ⟨v, hv⟩ := Option.isSome_iff_exists.mp h
    obtain ⟨m, hm, hk⟩ := run_eq_some hs hv
    exact ⟨m, hm, by rw [hk]; rfl⟩
  · rintro ⟨m, hm, hk⟩
    exact (agrees r).complete hs hm hk

theorem run_eq_none (hs : s.pos ≤ t.length) (h : ∀ m, Reaches t r s m → k m = none) : run t r s k = none := by
  refine Option.eq_none_iff_forall_ne_some.mpr fun v hv => ?_
  obtain ⟨m, hm, hk⟩ := run_eq_some hs hv
  rw [h m hm] at hk
  cases hk

/-- Where the rest matches behind one of the states that are reached only, the search goes on from there. -/
theorem run_unique (hs : s.pos ≤ t.length) (hm : Reaches t r s m) (h : ∀ m', Reaches t r s m' → m' ≠ m → k m' = none) :
    run t r s k = k m := by
  cases hk : k m with
  | none =>
    refine run_eq_none hs fun m' hm' => ?_
    by_cases heq : m' = m
    · rw [heq, hk]
    · exact h m' hm' heq
  | some v =>
    have hsome : (k m).isSome := by rw [hk]; rfl
    obtain ⟨v', hv'⟩ := Option.isSome_iff_exists.mp ((run_isSome hs).mpr ⟨m, hm, hsome⟩)
    obtain ⟨m', hm', hk'⟩ := run_eq_some hs hv'
    by_cases heq : m' = m
    · rw [hv', ← hk', heq, hk]
    · rw [h m' hm' heq] at hk'
      cases hk'

/-- Literal text, up to `same`. -/
def lit (same : α → α) (word : List α) : Regex α := word.foldr (fun c r => seq (one fun x => decide (same x = same c)) r) empty

/-- The word stands at place `i`, up to `same`. -/
def spelled (same : α → α) (t : List α) : List α → Nat → Bool
  | [], _ => true
  | c :: word, i => (t[i]?).any (fun x => decide (same x = same c)) && spelled same t word (i + 1)

/-- All characters from `i` to `j` have the property. -/
def All (t : List α) (p : α → Bool) (i j : Nat) : Prop := ∀ l, i ≤ l → l < j → (t[l]?).any p = true

theorem reaches_lit {same : α → α} {word : List α} :
    Reaches t (lit same word) s s' ↔ spelled same t word s.pos = true ∧ s' = s.goto (s.pos + word.length) := by
  induction word generalizing s with
  | nil => exact ⟨fun h => ⟨rfl, h⟩, fun h => h.2⟩
  | cons c word ih =>
    rw [spelled, Bool.and_eq_true]
    constructor
    · rintro ⟨m, ⟨hc, rfl⟩, hrest⟩
      obtain ⟨hword, rfl⟩ := ih.mp hrest
      refine ⟨⟨hc, hword⟩, ?_⟩
      rw [pos_goto, goto_goto, List.length_cons, Nat.add_right_comm, Nat.add_assoc]
    · rintro ⟨⟨hc, hword⟩, rfl⟩
      refine ⟨s.goto (s.pos + 1), ⟨hc, rfl⟩, ih.mpr ⟨hword, ?_⟩⟩
      rw [pos_goto, goto_goto, List.length_cons, Nat.add_right_comm, Nat.add_assoc]

/-- The lazy `[\s\S]*?` stops at the first place behind which the rest matches. -/
theorem run_lazy_any (hs : s.pos ≤ t.length) :
    run t (lazyStar (one fun _ => true)) s k = (Search.first (fun j => k (s.goto j)) t.length s.pos).map (·.2) := by
  have hfuel (fuel : Nat) : ∀ {s : State}, t.length = s.pos + fuel →
      reluctant (run t (one fun _ => true)) fuel s k = (Search.upTo (fun j => k (s.goto j)) (fuel + 1) s.pos).map (·.2) := by
    induction fuel with
    | zero =>
      intro s _
      rw [reluctant, Search.upTo, goto_pos]
      cases k s <;> rfl
    | succ fuel ih =>
      intro s hlen
      rw [reluctant, Search.upTo, goto_pos]
      cases k s with
      | some v => rfl
      | none =>
        have hget : (t[s.pos]?).any (fun _ => true) = true := by
          rw [List.getElem?_eq_getElem (by omega)]
          rfl
        rw [Option.none_or, run, if_pos hget, if_pos (show s.pos < (s.goto (s.pos + 1)).pos from Nat.lt_succ_self _), ih (by rw [pos_goto]; omega)]
        rfl
  rw [run, hfuel _ (by omega), Search.first, Nat.sub_add_comm hs]

/-! ## Places only -/

/-- The pattern neither keeps a text nor looks for one that was kept. -/
def plain : Regex α → Bool
  | empty | one _ | boundary _ => true
  | seq r q | alt r q => r.plain && q.plain
  | star r | lazyStar r | notAhead r => r.plain
  | group _ _ | back _ _ => false

/-- What a plain pattern reaches, by the places alone. -/
def Moves (t : List α) : Regex α → Nat → Nat → Prop
  | empty, i, j => j = i
  | one p, i, j => (t[i]?).any p = true ∧ j = i + 1
  | seq r q, i, j => ∃ l, Moves t r i l ∧ Moves t q l j
  | alt r q, i, j => Moves t r i j ∨ Moves t q i j
  | star r, i, j => Relation.ReflTransGen (fun a b => Moves t r a b ∧ a < b) i j
  | lazyStar r, i, j => Relation.ReflTransGen (fun a b => Moves t r a b ∧ a < b) i j
  | group _ r, i, j => Moves t r i j
  | back _ _, _, _ => False
  | notAhead r, i, j => (¬ ∃ l, Moves t r i l) ∧ j = i
  | boundary word, i, j => atBoundary word t i = true ∧ j = i

omit [DecidableEq α] in
theorem Moves.le (h : Moves t r i j) : i ≤ j := by
  have hclosure {R : Nat → Nat → Prop} {a b : Nat} (hab : Relation.ReflTransGen (fun a b => R a b ∧ a < b) a b) : a ≤ b := by
    induction hab with
    | refl => exact le_rfl
    | tail _ hstep ih => exact ih.trans hstep.2.le
  induction r generalizing i j with
  | empty => exact (show j = i from h).ge
  | one p => exact h.2.ge.trans' (Nat.le_succ i)
  | seq r q ihr ihq =>
    obtain ⟨l, hr, hq⟩ := h
    exact (ihr hr).trans (ihq hq)
  | alt r q ihr ihq => exact h.elim ihr ihq
  | star r => exact hclosure h
  | lazyStar r => exact hclosure h
  | group n r ih => exact ih h
  | back same n => exact h.elim
  | notAhead r => exact h.2.ge
  | boundary word => exact h.2.ge

theorem reaches_closure (ih : ∀ {s s' : State}, Reaches t r s s' ↔ Moves t r s.pos s'.pos ∧ s' = s.goto s'.pos) :
    Relation.ReflTransGen (fun a b => Reaches t r a b ∧ a.pos < b.pos) s s' ↔
      Relation.ReflTransGen (fun a b => Moves t r a b ∧ a < b) s.pos s'.pos ∧ s' = s.goto s'.pos := by
  constructor
  · intro h
    induction h with
    | refl => exact ⟨.refl, rfl⟩
    | tail _ hstep hind =>
      obtain ⟨hmoves, hgoto⟩ := ih.mp hstep.1
      refine ⟨hind.1.tail ⟨hmoves, hstep.2⟩, ?_⟩
      rw [hgoto, hind.2]
      rfl
  · rintro ⟨hmoves, hgoto⟩
    rw [hgoto]
    clear hgoto
    generalize s'.pos = j at hmoves ⊢
    induction hmoves with
    | refl => exact .refl
    | tail _ hstep hind => exact hind.tail ⟨ih.mpr ⟨hstep.1, rfl⟩, hstep.2⟩

theorem reaches_iff_moves (hr : r.plain = true) : Reaches t r s s' ↔ Moves t r s.pos s'.pos ∧ s' = s.goto s'.pos := by
  induction r generalizing s s' with
  | empty => exact ⟨fun h => by cases h; exact ⟨rfl, rfl⟩, fun h => by rw [Reaches, h.2, show s'.pos = s.pos from h.1]; rfl⟩
  | one p => exact ⟨fun h => by obtain ⟨hp, rfl⟩ := h; exact ⟨⟨hp, rfl⟩, rfl⟩, fun h => ⟨h.1.1, by rw [h.2, h.1.2]⟩⟩
  | seq r q ihr ihq =>
    obtain ⟨hr, hq⟩ := Bool.and_eq_true_iff.mp hr
    constructor
    · rintro ⟨m, h1, h2⟩
      obtain ⟨h1, hm⟩ := (ihr hr).mp h1
      obtain ⟨h2, hs'⟩ := (ihq hq).mp h2
      refine ⟨⟨m.pos, h1, h2⟩, ?_⟩
      rw [hs', hm]
      rfl
    · rintro ⟨⟨l, h1, h2⟩, hs'⟩
      exact ⟨s.goto l, (ihr hr).mpr ⟨h1, rfl⟩, (ihq hq).mpr ⟨h2, hs'⟩⟩
  | alt r q ihr ihq =>
    obtain ⟨hr, hq⟩ := Bool.and_eq_true_iff.mp hr
    exact (or_congr (ihr hr) (ihq hq)).trans or_and_right.symm
  | star r ih => exact reaches_closure (ih hr)
  | lazyStar r ih => exact reaches_closure (ih hr)
  | group n r => cases hr
  | back same n => cases hr
  | notAhead r ih =>
    have hahead : (∃ m, Reaches t r s m) ↔ ∃ l, Moves t r s.pos l :=
      ⟨fun h => ⟨h.choose.pos, ((ih hr).mp h.choose_spec).1⟩, fun h => ⟨s.goto h.choose, (ih hr).mpr ⟨h.choose_spec, rfl⟩⟩⟩
    constructor
    · rintro ⟨hnone, rfl⟩
      exact ⟨⟨fun h => hnone (hahead.mpr h), rfl⟩, rfl⟩
    · rintro ⟨⟨hnone, hpos⟩, hs'⟩
      refine ⟨fun h => hnone (hahead.mp h), ?_⟩
      rw [hs', hpos]
      rfl
  | boundary word =>
    constructor
    · rintro ⟨hb, rfl⟩
      exact ⟨⟨hb, rfl⟩, rfl⟩
    · rintro ⟨⟨hb, hpos⟩, hs'⟩
      refine ⟨hb, ?_⟩
      rw [hs', hpos]
      rfl

theorem run_stuck (hr : r.plain = true) (hs : s.pos ≤ t.length) (h : ∀ j, ¬ Moves t r s.pos j) : run t r s k = none :=
  run_eq_none hs fun m hm => absurd ((reaches_iff_moves hr).mp hm).1 (h m.pos)

theorem run_moves (hr : r.plain = true) (hs : s.pos ≤ t.length) (h : Moves t r s.pos j) (huniq : ∀ j', Moves t r s.pos j' → j' = j) :
    run t r s k = k (s.goto j) := by
  refine run_unique hs ((reaches_iff_moves hr).mpr ⟨h, rfl⟩) fun m hm hne => absurd ?_ hne
  obtain ⟨hmoves, hgoto⟩ := (reaches_iff_moves hr).mp hm
  rw [hgoto, huniq _ hmoves]

/-- Where a plain pattern matches, and up to which place, if there is no choice. -/
theorem matchAt_eq_some (hr : r.plain = true) (hi : i ≤ t.length) (h : Moves t r i j) (huniq : ∀ j', Moves t r i j' → j' = j) :
    matchAt t r i = some (start j) := run_moves hr hi h huniq

theorem moves_of_matchAt (hr : r.plain = true) (hi : i ≤ t.length) (h : matchAt t r i = some s) : Moves t r i s.pos := by
  obtain ⟨m, hm, hk⟩ := run_eq_some hi h
  cases hk
  exact ((reaches_iff_moves hr).mp hm).1

theorem matchAt_eq_none (hr : r.plain = true) (hi : i ≤ t.length) (h : ∀ j, ¬ Moves t r i j) : matchAt t r i = none := run_stuck hr hi h

theorem matchAt_isSome (hr : r.plain = true) (hi : i ≤ t.length) : (matchAt t r i).isSome ↔ ∃ j, Moves t r i j := by
  rw [matchAt, run_isSome hi]
  constructor
  · rintro ⟨m, hm, -⟩
    exact ⟨m.pos, ((reaches_iff_moves hr).mp hm).1⟩
  · rintro ⟨j, hj⟩
    exact ⟨(start i).goto j, (reaches_iff_moves hr).mpr ⟨hj, rfl⟩, rfl⟩

theorem test_iff (hr : r.plain = true) : r.test t = true ↔ ∃ i j, i ≤ t.length ∧ Moves t r i j := by
  rw [test, exec, Option.isSome_iff_ne_none, ne_eq, Search.first_eq_none]
  constructor
  · intro h
    by_contra hno
    refine h fun i _ hi => ?_
    rw [← Option.not_isSome_iff_eq_none, matchAt_isSome hr hi]
    rintro ⟨j, hj⟩
    exact hno ⟨i, j, hi, hj⟩
  · rintro ⟨i, j, hi, hj⟩ h
    have hnone := h i (Nat.zero_le i) hi
    rw [← Option.not_isSome_iff_eq_none, matchAt_isSome hr hi] at hnone
    exact hnone ⟨j, hj⟩

/-! ## A part of the text -/

/-- The pattern does not look at what stands before or behind its match. -/
def narrow : Regex α → Bool
  | empty | one _ => true
  | seq r q | alt r q => r.narrow && q.narrow
  | star r | lazyStar r => r.narrow
  | group _ _ | back _ _ | notAhead _ | boundary _ => false

variable {a b : Nat}

omit [DecidableEq α] in
theorem closure_slice (ih : ∀ {i j : Nat}, a + i ≤ b → (Moves (Search.slice t a b) r i j ↔ Moves t r (a + i) (a + j) ∧ a + j ≤ b))
    (hi : a + i ≤ b) : Relation.ReflTransGen (fun c d => Moves (Search.slice t a b) r c d ∧ c < d) i j ↔
      Relation.ReflTransGen (fun c d => Moves t r c d ∧ c < d) (a + i) (a + j) ∧ a + j ≤ b := by
  constructor
  · intro h
    induction h with
    | refl => exact ⟨.refl, hi⟩
    | tail _ hstep hind =>
      obtain ⟨hmoves, hle⟩ := (ih hind.2).mp hstep.1
      exact ⟨hind.1.tail ⟨hmoves, by have := hstep.2; omega⟩, hle⟩
  · rintro ⟨h, hle⟩
    have hall {x : Nat} (hx : Relation.ReflTransGen (fun c d => Moves t r c d ∧ c < d) (a + i) x) : x ≤ b →
        ∃ j, x = a + j ∧ Relation.ReflTransGen (fun c d => Moves (Search.slice t a b) r c d ∧ c < d) i j := by
      induction hx with
      | refl => exact fun _ => ⟨i, rfl, .refl⟩
      | tail _ hstep hind =>
        intro hyb
        obtain ⟨l, rfl, hl⟩ := hind (hstep.2.le.trans hyb)
        obtain ⟨l', rfl⟩ := Nat.exists_eq_add_of_le ((Nat.le_add_right a l).trans hstep.2.le)
        exact ⟨l', rfl, hl.tail ⟨(ih (hstep.2.le.trans hyb)).mpr ⟨hstep.1, hyb⟩, by have := hstep.2; omega⟩⟩
    obtain ⟨j', hj', hclosure⟩ := hall h hle
    rwa [show j = j' by omega]

omit [DecidableEq α] in
theorem moves_slice (hr : r.narrow = true) (hi : a + i ≤ b) :
    Moves (Search.slice t a b) r i j ↔ Moves t r (a + i) (a + j) ∧ a + j ≤ b := by
  induction r generalizing i j with
  | empty =>
    change j = i ↔ a + j = a + i ∧ a + j ≤ b
    omega
  | one p =>
    rw [Moves, Moves, Search.getElem?_slice]
    by_cases hlt : a + i < b
    · rw [if_pos hlt, and_assoc]
      refine and_congr_right fun _ => ?_
      omega
    · rw [if_neg hlt]
      refine iff_of_false (fun h => nomatch h.1) fun h => ?_
      have := h.1.2
      omega
  | seq r q ihr ihq =>
    obtain ⟨hr, hq⟩ := Bool.and_eq_true_iff.mp hr
    constructor
    · rintro ⟨l, h1, h2⟩
      obtain ⟨h1, hl⟩ := (ihr hr hi).mp h1
      obtain ⟨h2, hj⟩ := (ihq hq hl).mp h2
      exact ⟨⟨a + l, h1, h2⟩, hj⟩
    · rintro ⟨⟨l, h1, h2⟩, hj⟩
      obtain ⟨l', rfl⟩ := Nat.exists_eq_add_of_le ((Nat.le_add_right a i).trans h1.le)
      have hl : a + l' ≤ b := h2.le.trans hj
      exact ⟨l', (ihr hr hi).mpr ⟨h1, hl⟩, (ihq hq hl).mpr ⟨h2, hj⟩⟩
  | alt r q ihr ihq =>
    obtain ⟨hr, hq⟩ := Bool.and_eq_true_iff.mp hr
    exact (or_congr (ihr hr hi) (ihq hq hi)).trans or_and_right.symm
  | star r ih => exact closure_slice (ih hr) hi
  | lazyStar r ih => exact closure_slice (ih hr) hi
  | group n r => cases hr
  | back same n => cases hr
  | notAhead r => cases hr
  | boundary word => cases hr

/-- A search in a part of the text finds the matches that are in it. -/
theorem test_slice (hr : r.narrow = true) (hplain : r.plain = true) (hab : a ≤ b) (hb : b ≤ t.length) :
    r.test (Search.slice t a b) = true ↔ ∃ i j, a ≤ i ∧ j ≤ b ∧ Moves t r i j := by
  rw [test_iff hplain]
  constructor
  · rintro ⟨i, j, hi, hmoves⟩
    rw [Search.length_slice hab hb] at hi
    obtain ⟨hmoves, hj⟩ := (moves_slice hr (by omega)).mp hmoves
    exact ⟨a + i, a + j, Nat.le_add_right a i, hj, hmoves⟩
  · rintro ⟨i, j, hi, hj, hmoves⟩
    have hij := hmoves.le
    refine ⟨i - a, j - a, ?_, (moves_slice hr (by omega)).mpr ?_⟩
    · rw [Search.length_slice hab hb]
      omega
    · rw [show a + (i - a) = i by omega, show a + (j - a) = j by omega]
      exact ⟨hmoves, hj⟩

/-- No match of the pattern has the character `c`. -/
def avoids (c : α) : Regex α → Bool
  | empty | notAhead _ | boundary _ => true
  | one p => !p c
  | seq r q | alt r q => r.avoids c && q.avoids c
  | star r | lazyStar r | group _ r => r.avoids c
  | back _ _ => false

theorem Reaches.avoids {c : α} (h : Reaches t r s s') (hr : r.avoids c = true) {l : Nat} (hl : s.pos ≤ l) (hl' : l < s'.pos) : t[l]? ≠ some c := by
  have hclosure {R : State → State → Prop} (hR : ∀ {a b : State} {l : Nat}, R a b → a.pos ≤ l → l < b.pos → t[l]? ≠ some c) {a b : State}
      (hab : Relation.ReflTransGen (fun a b => R a b ∧ a.pos < b.pos) a b) {l : Nat} (hal : a.pos ≤ l) (hlb : l < b.pos) : t[l]? ≠ some c := by
    induction hab with
    | refl => omega
    | @tail x y _ hstep ih =>
      rcases Nat.lt_or_ge l x.pos with hlt | hge
      · exact ih hlt
      · exact hR hstep.1 hge hlb
  induction r generalizing s s' l with
  | empty =>
    have hpos : s'.pos = s.pos := congrArg State.pos h
    omega
  | one p =>
    obtain ⟨hp, rfl⟩ := h
    obtain rfl : l = s.pos := by
      rw [pos_goto] at hl'
      omega
    intro heq
    rw [heq, Option.any_some] at hp
    rw [Regex.avoids, hp] at hr
    cases hr
  | seq r q ihr ihq =>
    obtain ⟨hr, hq⟩ := Bool.and_eq_true_iff.mp hr
    obtain ⟨m, h1, h2⟩ := h
    rcases Nat.lt_or_ge l m.pos with hlt | hge
    · exact ihr h1 hr hl hlt
    · exact ihq h2 hq hge hl'
  | alt r q ihr ihq =>
    obtain ⟨hr, hq⟩ := Bool.and_eq_true_iff.mp hr
    exact h.elim (ihr · hr hl hl') (ihq · hq hl hl')
  | star r ih => exact hclosure (ih · hr) h hl hl'
  | lazyStar r ih => exact hclosure (ih · hr) h hl hl'
  | group n r ih =>
    obtain ⟨m, hm, rfl⟩ := h
    exact ih hm hr hl hl'
  | back same n => cases hr
  | notAhead r =>
    have hpos : s'.pos = s.pos := congrArg State.pos h.2
    omega
  | boundary word =>
    have hpos : s'.pos = s.pos := congrArg State.pos h.2
    omega

theorem Moves.avoids {c : α} (h : Moves t r i j) (hplain : r.plain = true) (hr : r.avoids c = true) {l : Nat} (hil : i ≤ l) (hlj : l < j) :
    t[l]? ≠ some c := by
  have hreaches : Reaches t r (start i) (start j) := (reaches_iff_moves hplain).mpr ⟨h, rfl⟩
  exact hreaches.avoids hr hil hlj

/-! ## Up to a character -/

def chr (c : α) : Regex α := one fun x => decide (x = c)

/-- `[^c]*` -/
def non (c : α) : Regex α := star (one fun x => decide (x ≠ c))

def seqs (rs : List (Regex α)) : Regex α := rs.foldr seq empty

variable {c : α} {rs : List (Regex α)}

omit [DecidableEq α] in
theorem moves_star_one : Moves t (star (one p)) i j ↔ i ≤ j ∧ All t p i j := by
  constructor
  · intro h
    change Relation.ReflTransGen _ i j at h
    induction h with
    | refl => exact ⟨le_rfl, fun l h1 h2 => absurd h2 (by omega)⟩
    | tail _ hstep ih =>
      obtain ⟨hle, hall⟩ := ih
      obtain ⟨⟨hp, rfl⟩, -⟩ := hstep
      refine ⟨by omega, fun l h1 h2 => ?_⟩
      rcases Nat.lt_succ_iff_lt_or_eq.mp h2 with h2 | rfl
      · exact hall l h1 h2
      · exact hp
  · rintro ⟨hle, hall⟩
    obtain ⟨d, rfl⟩ := Nat.exists_eq_add_of_le hle
    clear hle
    change Relation.ReflTransGen _ i (i + d)
    induction d with
    | zero => exact .refl
    | succ d ih =>
      exact (ih fun l h1 h2 => hall l h1 (by omega)).tail ⟨⟨hall (i + d) (by omega) (by omega), rfl⟩, Nat.lt_succ_self _⟩

theorem moves_chr : Moves t (chr c) i j ↔ t[i]? = some c ∧ j = i + 1 := by
  rw [chr, Moves]
  cases t[i]? <;> simp

theorem moves_non (hj : j ≤ t.length) : Moves t (non c) i j ↔ i ≤ j ∧ ∀ l, i ≤ l → l < j → t[l]? ≠ some c := by
  rw [non, moves_star_one]
  refine and_congr_right fun _ => forall_congr' fun l => forall_congr' fun _ => forall_congr' fun hl => ?_
  rw [List.getElem?_eq_getElem (by omega)]
  simp

omit [DecidableEq α] in
theorem moves_append {rs' : List (Regex α)} :
    Moves t (seqs (rs ++ rs')) i j ↔ ∃ l, Moves t (seqs rs) i l ∧ Moves t (seqs rs') l j := by
  induction rs generalizing i with
  | nil => exact ⟨fun h => ⟨i, rfl, h⟩, fun h => by obtain ⟨l, rfl, h⟩ := h; exact h⟩
  | cons r rs ih =>
    constructor
    · rintro ⟨l, h1, h2⟩
      obtain ⟨l', h2, h3⟩ := ih.mp h2
      exact ⟨l', ⟨l, h1, h2⟩, h3⟩
    · rintro ⟨l', ⟨l, h1, h2⟩, h3⟩
      exact ⟨l, h1, ih.mpr ⟨l', h2, h3⟩⟩

theorem moves_until : Moves t (seqs (non c :: chr c :: rs)) i j ↔ ∃ m, Search.indexOf t c i = some m ∧ Moves t (seqs rs) (m + 1) j := by
  constructor
  · rintro ⟨m, h1, _, h2, h3⟩
    obtain ⟨hc, rfl⟩ := moves_chr.mp h2
    obtain ⟨hle, hnone⟩ := (moves_non (List.getElem?_eq_some_iff.mp hc).1.le).mp h1
    exact ⟨m, Search.indexOf_eq_some.mpr ⟨hle, hc, hnone⟩, h3⟩
  · rintro ⟨m, hm, h3⟩
    obtain ⟨hle, hc, hnone⟩ := Search.indexOf_eq_some.mp hm
    exact ⟨m, (moves_non (Search.indexOf_lt hm).le).mpr ⟨hle, hnone⟩, m + 1, moves_chr.mpr ⟨hc, rfl⟩, h3⟩

/-- The pattern `r` somewhere before the first `c`. -/
theorem moves_within (hr : r.narrow = true) (hplain : r.plain = true) (hc : r.avoids c = true) :
    Moves t (seqs (non c :: r :: non c :: chr c :: rs)) i j ↔
      ∃ m, Search.indexOf t c i = some m ∧ r.test (Search.slice t i m) = true ∧ Moves t (seqs rs) (m + 1) j := by
  constructor
  · rintro ⟨a, h1, b, h2, h3⟩
    obtain ⟨m, hm, h4⟩ := moves_until.mp h3
    obtain ⟨hbm, hcm, hnone⟩ := Search.indexOf_eq_some.mp hm
    have hmlen := Search.indexOf_lt hm
    have hab := h2.le
    obtain ⟨hia, hnone1⟩ := (moves_non (by omega)).mp h1
    refine ⟨m, Search.indexOf_eq_some.mpr ⟨by omega, hcm, fun l hl1 hl2 => ?_⟩, ?_, h4⟩
    · rcases Nat.lt_or_ge l a with hla | hla
      · exact hnone1 l hl1 hla
      · rcases Nat.lt_or_ge l b with hlb | hlb
        · exact h2.avoids hplain hc hla hlb
        · exact hnone l hlb hl2
    · exact (test_slice hr hplain (by omega) hmlen.le).mpr ⟨a, b, hia, hbm, h2⟩
  · rintro ⟨m, hm, htest, h4⟩
    obtain ⟨him, hcm, hnone⟩ := Search.indexOf_eq_some.mp hm
    have hmlen := Search.indexOf_lt hm
    obtain ⟨a, b, ha, hb, h2⟩ := (test_slice hr hplain him hmlen.le).mp htest
    have hab := h2.le
    refine ⟨a, (moves_non (by omega)).mpr ⟨ha, fun l hl1 hl2 => hnone l hl1 (by omega)⟩, b, h2, moves_until.mpr ⟨m, ?_, h4⟩⟩
    exact Search.indexOf_eq_some.mpr ⟨hb, hcm, fun l hl1 hl2 => hnone l (by omega) hl2⟩

theorem plain_lit (same : α → α) (word : List α) : (lit same word).plain = true := by
  induction word with
  | nil => rfl
  | cons c word ih => exact ih

theorem moves_lit {same : α → α} {word : List α} :
    Moves t (lit same word) i j ↔ spelled same t word i = true ∧ j = i + word.length := by
  have h : Reaches t (lit same word) (start i) (start j) ↔ _ := reaches_iff_moves (plain_lit same word)
  rw [reaches_lit] at h
  constructor
  · intro hm
    obtain ⟨hword, heq⟩ := h.mpr ⟨hm, rfl⟩
    exact ⟨hword, congrArg State.pos heq⟩
  · rintro ⟨hword, rfl⟩
    exact (h.mp ⟨hword, rfl⟩).1

theorem run_lit {same : α → α} {word : List α} (hs : s.pos ≤ t.length) :
    run t (lit same word) s k = if spelled same t word s.pos = true then k (s.goto (s.pos + word.length)) else none := by
  split
  · rename_i hword
    exact run_moves (plain_lit same word) hs (moves_lit.mpr ⟨hword, rfl⟩) fun j' hj' => (moves_lit.mp hj').2
  · rename_i hword
    exact run_stuck (plain_lit same word) hs fun j hj => hword (moves_lit.mp hj).1

theorem spelled_get {same : α → α} {word : List α} (h : spelled same t word i = true) {l : Nat} (hl : i ≤ l)
    (hl' : l < i + word.length) : ∃ x, ∃ c ∈ word, t[l]? = some x ∧ same x = same c := by
  induction word generalizing i with
  | nil => exact absurd hl' (by simpa using hl)
  | cons c word ih =>
    rw [spelled, Bool.and_eq_true] at h
    rcases hl.eq_or_lt with rfl | hlt
    · cases hx : t[i]? with
      | none =>
        rw [hx] at h
        exact nomatch h.1
      | some x =>
        rw [hx, Option.any_some, decide_eq_true_iff] at h
        exact ⟨x, c, List.mem_cons_self, rfl, h.1⟩
    · obtain ⟨x, c', hc', hx⟩ := ih h.2 hlt (by rw [List.length_cons] at hl'; omega)
      exact ⟨x, c', List.mem_cons_of_mem _ hc', hx⟩

/-- A word whose first character does not come again does not begin inside itself. -/
theorem not_spelled_inside {same : α → α} {word : List α} (hword : ∀ c' ∈ word, same c' ≠ same c) (h : spelled same t (c :: word) i = true)
    (hij : i < j) (hj : j < i + (word.length + 1)) : ¬ spelled same t (c :: word) j = true := by
  intro h'
  rw [spelled, Bool.and_eq_true] at h h'
  obtain ⟨x, c', hc', hx, hsame⟩ := spelled_get h.2 hij (by omega : j < i + 1 + word.length)
  rw [hx, Option.any_some, decide_eq_true_iff] at h'
  exact hword c' hc' (hsame.symm.trans h'.1)

theorem run_append {rs' : List (Regex α)} : run t (seqs (rs ++ rs')) s k = run t (seqs rs) s fun m => run t (seqs rs') m k := by
  induction rs generalizing s with
  | nil => rfl
  | cons r rs ih =>
    rw [List.cons_append, seqs, List.foldr_cons, run, seqs, List.foldr_cons, run]
    exact congrArg _ (funext fun m => ih)

theorem exec_lit {same : α → α} {word : List α} :
    exec (lit same word) t i = (Search.find (fun k => spelled same t word k) t.length i).map fun k => (k, start (k + word.length)) := by
  rw [exec, ← Search.first_ite]
  refine Search.first_congr fun j _ hj => ?_
  exact run_lit hj

/-- `[\s\S]*?` before a literal text stops where the text stands first. -/
theorem run_lazy_lit {same : α → α} {word : List α} (hs : s.pos ≤ t.length) :
    run t (seqs [lazyStar (one fun _ => true), lit same word]) s some =
      (Search.find (fun k => spelled same t word k) t.length s.pos).map fun k => s.goto (k + word.length) := by
  have hcongr : Search.first (fun j => run t (seqs [lit same word]) (s.goto j) some) t.length s.pos =
      Search.first (fun j => if spelled same t word j = true then some (s.goto (j + word.length)) else none) t.length s.pos :=
    Search.first_congr fun j _ hj => run_lit hj
  have hlazy : run t (seqs [lazyStar (one fun _ => true), lit same word]) s some = _ :=
    run_lazy_any (k := fun m => run t (seqs [lit same word]) m some) hs
  rw [hlazy, hcongr, Search.first_ite, Option.map_map]
  rfl

/-- From a place the pattern reaches one state at most. -/
def Det (t : List α) (r : Regex α) : Prop := ∀ ⦃s m m' : State⦄, s.pos ≤ t.length → Reaches t r s m → Reaches t r s m' → m = m'

/-- The pattern begins with a character that has the property. -/
def Starts (t : List α) (p : α → Bool) (r : Regex α) : Prop := ∀ ⦃s m : State⦄, Reaches t r s m → (t[s.pos]?).any p = true

theorem run_det (h : Det t r) (hs : s.pos ≤ t.length) : run t r s k = (run t r s some).bind k := by
  cases hrun : run t r s some with
  | none =>
    refine run_eq_none hs fun m hm => ?_
    have hsome := (run_isSome (k := some) hs).mpr ⟨m, hm, rfl⟩
    rw [hrun] at hsome
    cases hsome
  | some m =>
    obtain ⟨m', hm, heq⟩ := run_eq_some hs hrun
    cases heq
    exact run_unique hs hm fun m' hm' hne => absurd (h hs hm' hm) hne

theorem det_empty : Det t empty := fun _ _ _ _ h h' => h.trans h'.symm

theorem det_one : Det t (one p) := fun _ _ _ _ h h' => h.2.trans h'.2.symm

theorem det_lit {same : α → α} {word : List α} : Det t (lit same word) := fun _ _ _ _ h h' => (reaches_lit.mp h).2.trans (reaches_lit.mp h').2.symm

/-- What follows decides the choices of `r`. -/
theorem det_seq_of (h : ∀ {s m m' e e' : State}, s.pos ≤ t.length → Reaches t r s m → Reaches t r s m' → Reaches t q m e → Reaches t q m' e' → m = m')
    (hq : Det t q) : Det t (seq r q) := by
  rintro s e e' hs ⟨m, hm, he⟩ ⟨m', hm', he'⟩
  obtain rfl := h hs hm hm' he he'
  exact hq (hm.le hs).2 he he'

theorem Det.seq (hr : Det t r) (hq : Det t q) : Det t (seq r q) := det_seq_of (fun hs hm hm' _ _ => hr hs hm hm') hq

theorem starts_one : Starts t p (one p) := fun _ _ h => h.1

theorem starts_lit {same : α → α} {word : List α} : Starts t (fun x => decide (same x = same c)) (lit same (c :: word)) :=
  fun _ _ ⟨_, h, _⟩ => h.1

theorem Starts.seq (h : Starts t p r) : Starts t p (seq r q) := fun _ _ ⟨_, hm, _⟩ => h hm

omit [DecidableEq α] in
theorem any_disjoint {p' : α → Bool} (h : ∀ x, p x = true → p' x = false) (hp : (t[i]?).any p = true) : ¬ (t[i]?).any p' = true := by
  cases hx : t[i]? with
  | none => exact fun hp' => nomatch hp'
  | some x =>
    rw [hx, Option.any_some] at hp
    rw [Option.any_some, h x hp]
    exact Bool.false_ne_true

/-- A repeated character ends where what follows begins. -/
theorem det_star_seq {p' : α → Bool} (hp : ∀ x, p x = true → p' x = false) (hq : Starts t p' q) (hdet : Det t q) :
    Det t (Regex.seq (star (one p)) q) := by
  refine det_seq_of (fun {s m m' e e'} hs hm hm' he he' => ?_) hdet
  obtain ⟨h1, hgoto⟩ := (reaches_iff_moves rfl).mp hm
  obtain ⟨h2, hgoto'⟩ := (reaches_iff_moves rfl).mp hm'
  obtain ⟨hle, hall⟩ := moves_star_one.mp h1
  obtain ⟨hle', hall'⟩ := moves_star_one.mp h2
  have heq : m.pos = m'.pos := by
    rcases Nat.lt_trichotomy m.pos m'.pos with hlt | heq | hlt
    · exact absurd (hq he) (any_disjoint hp (hall' _ hle hlt))
    · exact heq
    · exact absurd (hq he') (any_disjoint hp (hall _ hle' hlt))
  rw [hgoto, hgoto', heq]

/-- Whether something optional is there shows where what follows begins. -/
theorem eq_of_option {p' : α → Bool} (hp : ∀ x, p x = true → p' x = false) (hr : Starts t p r) (hdet : Det t r) {m' : State}
    (hs : s.pos ≤ t.length) (hm : Reaches t (alt r empty) s m) (hm' : Reaches t (alt r empty) s m') (h : (t[m.pos]?).any p' = true)
    (h' : (t[m'.pos]?).any p' = true) : m = m' := by
  rcases hm with hm | rfl <;> rcases hm' with hm' | rfl
  · exact hdet hs hm hm'
  · exact absurd h' (any_disjoint hp (hr hm))
  · exact absurd h (any_disjoint hp (hr hm'))
  · rfl

theorem det_option_seq {p' : α → Bool} (hp : ∀ x, p x = true → p' x = false) (hr : Starts t p r) (hdet : Det t r) (hq : Starts t p' q)
    (hdet' : Det t q) : Det t (Regex.seq (alt r empty) q) :=
  det_seq_of (fun hs hm hm' he he' => eq_of_option hp hr hdet hs hm hm' (hq he) (hq he')) hdet'

theorem det_group_option_seq {p' : α → Bool} (hp : ∀ x, p x = true → p' x = false) (hr : Starts t p r) (hdet : Det t r) (hq : Starts t p' q)
    (hdet' : Det t q) : Det t (Regex.seq (group n (alt r empty)) q) := by
  refine det_seq_of (fun {s m m' e e'} hs hm hm' he he' => ?_) hdet'
  obtain ⟨m, hm, rfl⟩ := hm
  obtain ⟨m', hm', rfl⟩ := hm'
  have h := hq he
  have h' := hq he'
  rw [pos_capture] at h h'
  rw [eq_of_option hp hr hdet hs hm hm' h h']

end Regex
