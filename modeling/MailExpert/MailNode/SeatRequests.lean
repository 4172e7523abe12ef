import MailExpert.Lib.TransitionSystem

/-!
# Requests for more seats

`requestThresholds` and `closeFulfilledRequests` of `services/mailNode/eopSeats.js`, over the requests that `requestSeats` of
`seatProvider.js` makes and the purchased numbers that the tenant or an administrator gives. A time is a `NOW()` of the database in
microseconds, which for a closing is the start of its transaction; JavaScript compares whole milliseconds.
-/

namespace MailExpert.SeatRequests

/-- A row of `mail_node_seat_requests`. -/
structure Request where
  seats : Nat
  purchased_at_request : Option Nat
  requested_at : Nat
  closed_at : Option Nat := none
deriving DecidableEq, Repr

/-- `new Date(time).getTime()` -/
def ms (time : Nat) : Nat := time / 1000

/-- An earlier request that the purchased number of one made at `made` does not include yet. -/
def counts (made : Nat) (prior : Request) : Bool := prior.closed_at.all fun closedAt => ms made < ms closedAt

/-- The number a request needs, after the earlier ones with theirs. -/
def threshold (earlier : List (Request × Nat)) (request : Request) : Nat :=
  earlier.foldl (fun base prior => if counts request.requested_at prior.1 then max base prior.2 else base)
    (request.purchased_at_request.getD 0) + request.seats

/-- Each request with its number, in creation order. -/
def requestThresholds (requests : List Request) : List (Request × Nat) :=
  requests.foldl (fun earlier request => earlier ++ [(request, threshold earlier request)]) []

/-- An open request that the purchased number covers closes. -/
def closed (purchased began : Nat) (entry : Request × Nat) : Request :=
  if entry.1.closed_at.isNone ∧ entry.2 ≤ purchased then { entry.1 with closed_at := some began } else entry.1

def closeFulfilledRequests (purchased began : Nat) (requests : List Request) : List Request :=
  (requestThresholds requests).map (closed purchased began)

/-- The requests in the order of `requested_at, id`, and the purchased number that was read last. -/
structure State where
  requests : List Request := []
  purchased : Option Nat := none
  clock : Nat := 0
deriving DecidableEq, Repr

inductive Label
  | request (seats now : Nat)
  /-- A read of the purchased number, kept by a transaction that began at `began`. -/
  | read (purchased began : Nat)

/-- The clock does not run back and the purchased number never goes down. -/
def step (s : State) : Label → Option State
  | .request seats now =>
    if s.clock ≤ now ∧ 0 < seats then
      some { s with
        requests := s.requests ++ [{ seats, purchased_at_request := s.purchased, requested_at := now }]
        clock := now }
    else none
  | .read purchased began =>
    if s.purchased.getD 0 ≤ purchased then
      some { s with
        requests := closeFulfilledRequests purchased began s.requests
        purchased := some purchased
        clock := max s.clock began }
    else none

def system : TransitionSystem State Label where
  init s := s = {}
  step := step

def total (requests : List Request) : Nat := (requests.map (·.seats)).sum

def closedSeats (requests : List Request) : Nat := total (requests.filter (·.closed_at.isSome))

/-- The closed requests took no more seats than the purchased number rose since the first request, and where none is open that rise covers
them all. -/
def Covered (s : State) : Prop := ∀ first rest, s.requests = first :: rest →
  closedSeats s.requests + first.purchased_at_request.getD 0 ≤ s.purchased.getD 0 ∧
    ((∀ r ∈ s.requests, r.closed_at.isSome = true) → total s.requests + first.purchased_at_request.getD 0 ≤ s.purchased.getD 0)

/-- Where requests close, each that is open was followed only by ones made in an earlier millisecond than the closing is dated. -/
def apart (s : State) : Label → Bool
  | .request _ _ => true
  | .read _ began => s.requests.tails.all fun
    | [] => true
    | r :: later => r.closed_at.isSome || later.all fun next => ms next.requested_at < ms began

variable {s s' : State} {r next first : Request} {requests rest : List Request} {earlier : List (Request × Nat)} {purchased began : Nat}
  {a b : Request × Nat} {l : Label}

/-! ## The numbers -/

theorem le_foldl_max {p : Request → Bool} {n : Nat} : n ≤ earlier.foldl (fun base prior => if p prior.1 then max base prior.2 else base) n ∧
    ∀ a ∈ earlier, p a.1 = true → a.2 ≤ earlier.foldl (fun base prior => if p prior.1 then max base prior.2 else base) n := by
  induction earlier generalizing n with
  | nil => exact ⟨le_rfl, fun a ha => by cases ha⟩
  | cons b earlier ih =>
    obtain ⟨hbase, hmem⟩ := @ih (if p b.1 then max n b.2 else n)
    rw [List.foldl_cons]
    refine ⟨le_trans ?_ hbase, ?_⟩
    · split
      · exact le_max_left _ _
      · exact le_rfl
    · intro a ha hp
      rcases List.mem_cons.mp ha with rfl | ha
      · refine le_trans ?_ hbase
        rw [if_pos hp]
        exact le_max_right _ _
      · exact hmem a ha hp

/-- A request asks for its seats beyond what was known and beyond every earlier one that it stacks on. -/
theorem le_threshold : r.purchased_at_request.getD 0 + r.seats ≤ threshold earlier r ∧
    ∀ a ∈ earlier, counts r.requested_at a.1 = true → a.2 + r.seats ≤ threshold earlier r := by
  obtain ⟨hbase, hmem⟩ := @le_foldl_max earlier (counts r.requested_at) (r.purchased_at_request.getD 0)
  exact ⟨Nat.add_le_add_right hbase _, fun a ha hcounts => Nat.add_le_add_right (hmem a ha hcounts) _⟩

theorem requestThresholds_append : requestThresholds (requests ++ [r]) =
    requestThresholds requests ++ [(r, threshold (requestThresholds requests) r)] := by
  rw [requestThresholds, List.foldl_append]
  rfl

@[simp] theorem map_fst_requestThresholds : (requestThresholds requests).map Prod.fst = requests := by
  induction requests using List.reverseRecOn with
  | nil => rfl
  | append_singleton requests r ih => rw [requestThresholds_append, List.map_append, ih, List.map_singleton]

theorem mem_of_mem_thresholds (h : a ∈ requestThresholds requests) : a.1 ∈ requests := by
  have hmem := List.mem_map_of_mem (f := Prod.fst) h
  rwa [map_fst_requestThresholds] at hmem

theorem closed_fields : (closed purchased began a).seats = a.1.seats ∧ (closed purchased began a).requested_at = a.1.requested_at ∧
    (closed purchased began a).purchased_at_request = a.1.purchased_at_request := by
  unfold closed
  split <;> exact ⟨rfl, rfl, rfl⟩

/-- A closing that is dated after a request leaves the earlier ones what they are to it. -/
theorem counts_closed {made : Nat} (h : a.1.closed_at.isSome = true ∨ ms made < ms began) :
    counts made (closed purchased began a) = counts made a.1 := by
  unfold closed
  split
  next hcloses =>
    have hlater : ms made < ms began := h.resolve_left (by simp [hcloses.1])
    rw [counts, counts, Option.isNone_iff_eq_none.mp hcloses.1]
    simpa using hlater
  next => rfl

theorem threshold_closed (h : ∀ a ∈ earlier, a.1.closed_at.isSome = true ∨ ms r.requested_at < ms began) (hr : next.seats = r.seats)
    (hat : next.requested_at = r.requested_at) (hknown : next.purchased_at_request = r.purchased_at_request) :
    threshold (earlier.map fun a => (closed purchased began a, a.2)) next = threshold earlier r := by
  unfold threshold
  rw [hr, hat, hknown]
  congr 1
  generalize r.purchased_at_request.getD 0 = n
  induction earlier generalizing n with
  | nil => rfl
  | cons a earlier ih =>
    rw [List.map_cons, List.foldl_cons, List.foldl_cons, counts_closed (h a List.mem_cons_self)]
    exact ih (fun b hb => h b (List.mem_cons_of_mem _ hb)) _

/-- What `apart` asks of a closing. -/
def Apart (began : Nat) (requests : List Request) : Prop :=
  requests.Pairwise fun r next => r.closed_at.isSome = true ∨ ms next.requested_at < ms began

theorem apart_iff : apart s (.read purchased began) = true ↔ Apart began s.requests := by
  unfold apart Apart
  dsimp only
  generalize s.requests = requests
  induction requests with
  | nil => simp
  | cons r later ih =>
    rw [List.tails_cons, List.all_cons, Bool.and_eq_true, ih, List.pairwise_cons]
    refine and_congr_left fun _ => ?_
    dsimp only
    rw [Bool.or_eq_true, List.all_eq_true]
    constructor
    · intro h next hnext
      exact h.imp_right fun hall => of_decide_eq_true (hall next hnext)
    · intro h
      cases hclosed : r.closed_at.isSome with
      | true => exact .inl rfl
      | false =>
        refine .inr fun next hnext => decide_eq_true ?_
        exact (h next hnext).resolve_left (by simp [hclosed])

/-- A closing leaves the numbers of the requests. -/
theorem requestThresholds_close (h : Apart began requests) : requestThresholds ((requestThresholds requests).map (closed purchased began)) =
    (requestThresholds requests).map fun a => (closed purchased began a, a.2) := by
  induction requests using List.reverseRecOn with
  | nil => rfl
  | append_singleton requests r ih =>
    obtain ⟨hrequests, -, hlast⟩ := List.pairwise_append.mp h
    rw [requestThresholds_append, List.map_append, List.map_append, List.map_singleton, List.map_singleton, requestThresholds_append,
      ih hrequests]
    obtain ⟨hseats, hat, hknown⟩ := @closed_fields purchased began (r, threshold (requestThresholds requests) r)
    rw [threshold_closed (r := r) (fun a ha => hlast a.1 (mem_of_mem_thresholds ha) r (by simp)) hseats hat hknown]

/-! ## Each request beyond the earlier ones -/

structure Stacked (s : State) : Prop where
  covered : ∀ a ∈ requestThresholds s.requests, a.1.closed_at.isSome = true → a.2 ≤ s.purchased.getD 0
  own : ∀ a ∈ requestThresholds s.requests, a.1.purchased_at_request.getD 0 + a.1.seats ≤ a.2
  above : (requestThresholds s.requests).Pairwise fun a b => a.2 + b.1.seats ≤ b.2
  known : ∀ r ∈ s.requests, r.purchased_at_request.getD 0 ≤ s.purchased.getD 0
  rising : s.requests.Pairwise fun r next => r.purchased_at_request.getD 0 ≤ next.purchased_at_request.getD 0

/-- A new request stacks on those open, and what the closed ones took is in the number it knows. -/
theorem Stacked.request {seats now : Nat} (h : Stacked s) : Stacked { s with
    requests := s.requests ++ [{ seats, purchased_at_request := s.purchased, requested_at := now }], clock := now } := by
  obtain ⟨hown, hstacks⟩ := @le_threshold { seats, purchased_at_request := s.purchased, requested_at := now } (requestThresholds s.requests)
  refine ⟨fun a ha hclosed => ?_, fun a ha => ?_, ?_, fun r hr => ?_, ?_⟩
  · rw [requestThresholds_append] at ha
    rcases List.mem_append.mp ha with ha | ha
    · exact h.covered a ha hclosed
    · rw [List.mem_singleton.mp ha] at hclosed
      cases hclosed
  · rw [requestThresholds_append] at ha
    rcases List.mem_append.mp ha with ha | ha
    · exact h.own a ha
    · rw [List.mem_singleton.mp ha]
      exact hown
  · rw [requestThresholds_append]
    refine List.pairwise_append.mpr ⟨h.above, List.pairwise_singleton _ _, fun a ha b hb => ?_⟩
    rw [List.mem_singleton.mp hb]
    cases hcounts : counts now a.1 with
    | true => exact hstacks a ha hcounts
    | false =>
      have hclosed : a.1.closed_at.isSome = true := by
        cases hat : a.1.closed_at with
        | none => simp [counts, hat] at hcounts
        | some _ => rfl
      exact (Nat.add_le_add_right (h.covered a ha hclosed) _).trans hown
  · rcases List.mem_append.mp hr with hr | hr
    · exact h.known r hr
    · rw [List.mem_singleton.mp hr]
  · refine List.pairwise_append.mpr ⟨h.rising, List.pairwise_singleton _ _, fun r hr next hnext => ?_⟩
    rw [List.mem_singleton.mp hnext]
    exact h.known r hr

theorem Stacked.read (h : Stacked s) (hup : s.purchased.getD 0 ≤ purchased) (hapart : Apart began s.requests) : Stacked { s with
    requests := closeFulfilledRequests purchased began s.requests, purchased := some purchased, clock := max s.clock began } := by
  have hthresholds : requestThresholds (closeFulfilledRequests purchased began s.requests) =
      (requestThresholds s.requests).map fun a => (closed purchased began a, a.2) := requestThresholds_close hapart
  refine ⟨fun a ha hclosed => ?_, fun a ha => ?_, ?_, fun r hr => ?_, ?_⟩
  · obtain ⟨b, hb, rfl⟩ := List.mem_map.mp (hthresholds ▸ ha)
    dsimp only at hclosed
    unfold closed at hclosed
    split at hclosed
    next hcloses => exact hcloses.2
    next => exact (h.covered b hb hclosed).trans hup
  · obtain ⟨b, hb, rfl⟩ := List.mem_map.mp (hthresholds ▸ ha)
    obtain ⟨hseats, -, hknown⟩ := @closed_fields purchased began b
    dsimp only
    rw [hseats, hknown]
    exact h.own b hb
  · refine hthresholds ▸ List.pairwise_map.mpr (h.above.imp fun {a b} hab => ?_)
    dsimp only
    rwa [closed_fields.1]
  · obtain ⟨a, ha, rfl⟩ := List.mem_map.mp hr
    rw [closed_fields.2.2]
    exact (h.known a.1 (mem_of_mem_thresholds ha)).trans hup
  · refine List.pairwise_map.mpr ?_
    have hrising := h.rising
    rw [← @map_fst_requestThresholds s.requests, List.pairwise_map] at hrising
    exact hrising.imp fun {a b} hab => by rwa [closed_fields.2.2, closed_fields.2.2]

theorem stacked_invariant : system.Invariant (fun s l => apart s l = true) Stacked where
  init h := by
    subst h
    exact ⟨fun a ha => (by cases ha), fun a ha => (by cases ha), .nil, fun r hr => (by cases hr), .nil⟩
  step {s l s'} hs hguard hstep := by
    cases l with
    | request seats now =>
      change (if s.clock ≤ now ∧ 0 < seats then _ else none) = _ at hstep
      split at hstep
      · cases hstep
        exact hs.request
      · cases hstep
    | read purchased began =>
      change (if s.purchased.getD 0 ≤ purchased then _ else none) = _ at hstep
      split at hstep
      next hup =>
        cases hstep
        exact hs.read hup (apart_iff.mp hguard)
      next => cases hstep

/-- The seats of requests of which each is beyond the one before it, where those that count are within the purchased number. -/
theorem sum_le {L : List (Request × Nat)} {p : Request → Bool} {n : Nat} (hfirst : ∀ a ∈ L, n + a.1.seats ≤ a.2)
    (habove : L.Pairwise fun a b => a.2 + b.1.seats ≤ b.2) (hcovered : ∀ a ∈ L, p a.1 = true → a.2 ≤ purchased) (hn : n ≤ purchased) :
    total ((L.map Prod.fst).filter p) + n ≤ purchased := by
  induction L generalizing n with
  | nil => simpa [total] using hn
  | cons a L ih =>
    obtain ⟨ha, hL⟩ := List.pairwise_cons.mp habove
    have hmem : ∀ b ∈ L, p b.1 = true → b.2 ≤ purchased := fun b hb => hcovered b (List.mem_cons_of_mem _ hb)
    rw [List.map_cons, List.filter_cons]
    split
    next hp =>
      have hrest := ih ha hL hmem (hcovered a List.mem_cons_self hp)
      have hseats := hfirst a List.mem_cons_self
      rw [total, List.map_cons, List.sum_cons]
      change total _ + a.2 ≤ purchased at hrest
      unfold total at hrest
      omega
    next => exact ih (fun b hb => hfirst b (List.mem_cons_of_mem _ hb)) hL hmem hn

theorem Stacked.sum_le {p : Request → Bool} (h : Stacked s) (hs : s.requests = first :: rest)
    (hp : ∀ r ∈ s.requests, p r = true → r.closed_at.isSome = true) :
    total (s.requests.filter p) + first.purchased_at_request.getD 0 ≤ s.purchased.getD 0 := by
  have hfirst : ∀ a ∈ requestThresholds s.requests, first.purchased_at_request.getD 0 + a.1.seats ≤ a.2 := by
    intro a ha
    have hrising := h.rising
    rw [hs, List.pairwise_cons] at hrising
    have hle : first.purchased_at_request.getD 0 ≤ a.1.purchased_at_request.getD 0 := by
      have hmem := mem_of_mem_thresholds ha
      rw [hs] at hmem
      rcases List.mem_cons.mp hmem with heq | hmem
      · rw [heq]
      · exact hrising.1 _ hmem
    exact (Nat.add_le_add_right hle _).trans (h.own a ha)
  have hknown : first.purchased_at_request.getD 0 ≤ s.purchased.getD 0 := h.known first (hs ▸ List.mem_cons_self)
  have hsum := SeatRequests.sum_le (p := p) hfirst h.above (fun a ha hpa => h.covered a ha (hp _ (mem_of_mem_thresholds ha) hpa)) hknown
  rwa [map_fst_requestThresholds] at hsum

/-- **Seat requests are closed by seats bought**, in every run whose closings are dated apart from the requests. -/
theorem closed_by_purchases (h : system.ReachesUnder (fun s l => apart s l = true) s) : Covered s := by
  intro first rest hs
  have hstacked : Stacked s := stacked_invariant.reachesUnder h
  refine ⟨hstacked.sum_le hs fun r _ hr => hr, fun hall => ?_⟩
  have hsum := hstacked.sum_le (p := fun _ => true) hs fun r hr _ => hall r hr
  rwa [List.filter_eq_self.mpr fun _ _ => rfl] at hsum

/-- Two requests stack, a purchase covers the first and a later one the second. -/
theorem closed_by_purchases_stacked : ∃ s, system.ReachesUnder (fun s l => apart s l = true) s ∧ Covered s ∧
    closedSeats s.requests = 10 ∧ s.purchased = some 20 := by
  have htrace : (system.exec (fun s l => apart s l = true) {} [.read 10 0, .request 5 1000, .request 5 1500, .read 15 3000,
      .read 20 4000]).any (fun s => decide (closedSeats s.requests = 10 ∧ s.purchased = some 20)) = true := by decide
  obtain ⟨s, hs, hp⟩ := TransitionSystem.reaches_of_exec (M := system) (s := {}) rfl htrace
  exact ⟨s, hs, closed_by_purchases hs, of_decide_eq_true hp⟩

/-- One purchase closes two requests: the first closes in the millisecond in which the second was made, and at the next read the second no
longer stacks on it. -/
theorem closed_twice_by_one_purchase : ¬ ∀ s, system.Reachable s → Covered s := by
  intro h
  have htrace : (system.exec TransitionSystem.anyStep {} [.read 10 0, .request 5 1000, .request 5 2100, .read 15 2800,
      .read 15 9000]).any (fun s => decide (closedSeats s.requests = 10 ∧ s.purchased = some 15 ∧
        s.requests.head?.map (·.purchased_at_request) = some (some 10))) = true := by decide
  obtain ⟨s, hs, hp⟩ := TransitionSystem.reaches_of_exec (M := system) (s := {}) rfl htrace
  obtain ⟨hclosed, hpurchased, hfirst⟩ := of_decide_eq_true hp
  obtain ⟨first, rest, hrequests⟩ : ∃ first rest, s.requests = first :: rest := by
    cases hrequests : s.requests with
    | nil => simp [hrequests] at hfirst
    | cons first rest => exact ⟨first, rest, rfl⟩
  have hcovered := (h s hs first rest hrequests).1
  have hten : first.purchased_at_request = some 10 := by simpa [hrequests] using hfirst
  rw [hclosed, hpurchased, hten] at hcovered
  exact absurd hcovered (by decide)

end MailExpert.SeatRequests
