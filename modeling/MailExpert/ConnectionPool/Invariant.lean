import MailExpert.ConnectionPool.Pool

/-!
# What every operation on the pool keeps

The invariant (`Inv`) joins the pool objects to what is out: the connections being opened, the sessions in
callers' hands and the callers not answered yet. A caller between two of these is in limbo (`Limbo`): out of
the queue and not answered.
-/

namespace MailExpert.ConnectionPool

variable {n next k j c id : Nat} {p p' : Pool} {s t : State} {w : Waiter} {l : Lease} {g : Grow}
  {background : Bool} {m : Moment}

/-- Interactive waiters before background ones. -/
def Before (a b : Waiter) : Prop := a.background = true → b.background = true

/-- In order of arrival, among their kind. -/
def Earlier (a b : Waiter) : Prop := a.background = b.background → a.id < b.id

structure PoolOk (n next : Nat) (p : Pool) : Prop where
  nodup : p.clients.Nodup
  size : p.clients.length + p.connecting ≤ n
  background : p.bgInUse.card + p.bgConnecting ≤ backgroundPoolCap n
  order : p.waiters.Pairwise Before
  arrival : p.waiters.Pairwise Earlier
  used : ∀ c ∈ p.inUse, c < next
  timers : ∀ id ∈ p.timers, id ∈ p.waiters.map (·.id)

/-- No waiter that could be served waits beside an idle session. -/
def Served (n : Nat) (p : Pool) : Prop :=
  ∀ c ∈ p.clients, c ∉ p.inUse → ∀ w ∈ p.waiters, w.background = true ∧ p.backgroundPoolFull n = true

namespace PoolOk

theorem disarm (h : PoolOk n next p) : PoolOk n next (p.disarmPoolIdleClose c) :=
  ⟨h.nodup, h.size, h.background, h.order, h.arrival, h.used, h.timers⟩

theorem arm (h : PoolOk n next p) : PoolOk n next (p.armPoolIdleClose c) :=
  ⟨h.nodup, h.size, h.background, h.order, h.arrival, h.used, h.timers⟩

theorem markFree (h : PoolOk n next p) : PoolOk n next (p.markPooledFree c) where
  nodup := h.nodup
  size := h.size
  background := (Nat.add_le_add_right (Finset.card_le_card (Finset.erase_subset _ _)) _).trans h.background
  order := h.order
  arrival := h.arrival
  used c' hc' := h.used c' (Finset.mem_of_mem_erase hc')
  timers := h.timers

theorem remove (h : PoolOk n next p) : PoolOk n next (p.remove c) where
  nodup := h.nodup.filter _
  size := (Nat.add_le_add_right (List.length_filter_le _ _) _).trans h.size
  background := h.background
  order := h.order
  arrival := h.arrival
  used := h.used
  timers := h.timers

theorem handOut (h : PoolOk n next p) (hc : c < next)
    (hcap : background = true → p.backgroundPoolFull n = false) :
    PoolOk n next (p.handOutPooled c background) where
  nodup := h.nodup
  size := h.size
  background := by
    cases background with
    | false => exact h.background
    | true =>
      have hfree := hcap rfl
      simp only [Pool.backgroundPoolFull, decide_eq_false_iff_not] at hfree
      have hcard : (insert c p.bgInUse).card ≤ p.bgInUse.card + 1 := Finset.card_insert_le c p.bgInUse
      show (insert c p.bgInUse).card + p.bgConnecting ≤ backgroundPoolCap n
      omega
  order := h.order
  arrival := h.arrival
  used c' hc' := by
    rcases Finset.mem_insert.mp hc' with rfl | hc'
    · exact hc
    · exact h.used c' hc'
  timers := h.timers

theorem dequeue (h : PoolOk n next p) : PoolOk n next (p.dequeue id) where
  nodup := h.nodup
  size := h.size
  background := h.background
  order := h.order.sublist List.filter_sublist
  arrival := h.arrival.sublist List.filter_sublist
  used := h.used
  timers id' hid' := by
    obtain ⟨hne, hid'⟩ := Finset.mem_erase.mp hid'
    obtain ⟨w, hw, rfl⟩ := List.mem_map.mp (h.timers id' hid')
    exact List.mem_map.mpr ⟨w, List.mem_filter.mpr ⟨hw, by simpa using hne⟩, rfl⟩

theorem reserve (h : PoolOk n next p) (hsize : p.clients.length + p.connecting < n)
    (hcap : background = true → p.backgroundPoolFull n = false) : PoolOk n next (p.reserve background) where
  nodup := h.nodup
  size := by
    show p.clients.length + (p.connecting + 1) ≤ n
    omega
  background := by
    cases background with
    | false => exact h.background
    | true =>
      have hfree := hcap rfl
      simp only [Pool.backgroundPoolFull, decide_eq_false_iff_not] at hfree
      show p.bgInUse.card + (p.bgConnecting + 1) ≤ backgroundPoolCap n
      omega
  order := h.order
  arrival := h.arrival
  used := h.used
  timers := h.timers

theorem unreserve (h : PoolOk n next p) : PoolOk n next (p.unreserve background) where
  nodup := h.nodup
  size := by
    have := h.size
    show p.clients.length + (p.connecting - 1) ≤ n
    omega
  background := by
    have := h.background
    show p.bgInUse.card + (p.bgConnecting - _) ≤ backgroundPoolCap n
    omega
  order := h.order
  arrival := h.arrival
  used := h.used
  timers := h.timers

theorem mem_dropWhile {ws : List Waiter} (h : ws.Pairwise Before) :
    ∀ b ∈ ws.dropWhile (!·.background), b.background = true := by
  induction ws with
  | nil => simp
  | cons a ws ih =>
    rw [List.pairwise_cons] at h
    rw [List.dropWhile_cons]
    cases ha : a.background with
    | false => simpa using ih h.2
    | true =>
      intro b hb
      rcases List.mem_cons.mp hb with rfl | hb
      · exact ha
      · exact h.1 b hb ha

theorem enqueue (h : PoolOk n next p) (hw : ∀ a ∈ p.waiters, a.id < w.id) : PoolOk n next (p.enqueue w) := by
  have hmem : ∀ id ∈ (p.enqueue w).timers, id ∈ (p.enqueue w).waiters.map (·.id) := by
    intro id hid
    have hin : w ∈ (p.enqueue w).waiters ∧ ∀ a ∈ p.waiters, a ∈ (p.enqueue w).waiters := by
      rw [Pool.enqueue]
      split
      · exact ⟨by simp, fun a ha => List.mem_append_left _ ha⟩
      · refine ⟨by simp, fun a ha => ?_⟩
        rw [← List.takeWhile_append_dropWhile (p := fun w : Waiter => !w.background) (l := p.waiters)] at ha
        rcases List.mem_append.mp ha with ha | ha
        · exact List.mem_append_left _ ha
        · exact List.mem_append_right _ (List.mem_cons_of_mem _ ha)
    rcases Finset.mem_insert.mp hid with rfl | hid
    · exact List.mem_map_of_mem hin.1
    · obtain ⟨a, ha, rfl⟩ := List.mem_map.mp (h.timers id hid)
      exact List.mem_map_of_mem (hin.2 a ha)
  refine ⟨h.nodup, h.size, h.background, ?_, ?_, h.used, hmem⟩
  · cases hb : w.background with
    | true =>
      simp only [Pool.enqueue, hb, if_true]
      exact List.pairwise_append.mpr ⟨h.order, List.pairwise_singleton _ _, fun a _ b hbw _ =>
        (List.mem_singleton.mp hbw) ▸ hb⟩
    | false =>
      simp only [Pool.enqueue, hb, Bool.false_eq_true, if_false]
      refine List.pairwise_append.mpr ⟨h.order.sublist (List.takeWhile_sublist _), ?_, fun a ha b _ habs => ?_⟩
      · refine List.pairwise_cons.mpr ⟨fun b _ habs => ?_, h.order.sublist (List.dropWhile_sublist _)⟩
        rw [hb] at habs
        cases habs
      · have := List.mem_takeWhile_imp ha
        simp [habs] at this
  · cases hb : w.background with
    | true =>
      simp only [Pool.enqueue, hb, if_true]
      refine List.pairwise_append.mpr ⟨h.arrival, List.pairwise_singleton _ _, fun a ha b hbw _ => ?_⟩
      exact (List.mem_singleton.mp hbw) ▸ hw a ha
    | false =>
      simp only [Pool.enqueue, hb, Bool.false_eq_true, if_false]
      refine List.pairwise_append.mpr ⟨h.arrival.sublist (List.takeWhile_sublist _), ?_, fun a ha b hb' => ?_⟩
      · refine List.pairwise_cons.mpr ⟨fun b hb' heq => ?_, h.arrival.sublist (List.dropWhile_sublist _)⟩
        rw [mem_dropWhile h.order b hb', hb] at heq
        cases heq
      · rcases List.mem_cons.mp hb' with rfl | hb'
        · exact fun _ => hw a ((List.takeWhile_sublist _).mem ha)
        · have hall := h.arrival
          rw [← List.takeWhile_append_dropWhile (p := fun w : Waiter => !w.background) (l := p.waiters)] at hall
          exact (List.pairwise_append.mp hall).2.2 a ha b hb'

end PoolOk

/-! ## The pools, the sessions and the callers -/

/-- A session in a caller's hands is not for others, and counts among background sessions while open. -/
structure LeaseOk (s : State) (l : Lease) : Prop where
  known : l.session < s.nextSession
  used : l.session ∈ (s.pools (s.sessions l.session).pool).clients →
    l.session ∈ (s.pools (s.sessions l.session).pool).inUse
  counted : (s.sessions l.session).isOpen = true → l.background = true →
    l.session ∈ (s.pools (s.sessions l.session).pool).bgInUse

def State.asking (s : State) (k : Nat) : List Nat :=
  (s.pools k).waiters.map (·.id) ++ s.grows.map (·.caller)

/-- An open session is in the pool object that opened it, and at most one caller has it. -/
structure SessionsOk (s : State) : Prop where
  fresh {k c : Nat} : c ∈ (s.pools k).clients → c < s.nextSession ∧ (s.sessions c).pool = k
  opened {c : Nat} : c < s.nextSession → (s.sessions c).isOpen = true →
    c ∈ (s.pools (s.sessions c).pool).clients
  single : (s.leases.map (·.session)).Nodup
  lease {l : Lease} : l ∈ s.leases → LeaseOk s l

structure Inv (n : Nat) (s : State) : Prop extends SessionsOk s where
  pool (k : Nat) : PoolOk n s.nextSession (s.pools k)
  connecting (k : Nat) : (s.pools k).connecting = s.grows.countP (·.pool = k)
  bgConnecting (k : Nat) : (s.pools k).bgConnecting = s.grows.countP fun g => g.pool = k && g.background
  queue {k : Nat} : (s.pools k).waiters ≠ [] → s.current = some k
  asked (k : Nat) : (s.asking k).Nodup
  waiting {k id : Nat} : id ∈ s.asking k → id < s.nextCaller ∧ s.answers id = 0
  once (id : Nat) : s.answers id ≤ 1
  new {id : Nat} : s.nextCaller ≤ id → s.answers id = 0
  unmade {k : Nat} : s.nextPool ≤ k → s.pools k = {}
  current {k : Nat} : s.current = some k → k < s.nextPool
  drained : ∀ p ∈ s.drained, Served n p

structure Limbo (s : State) (id : Nat) : Prop where
  known : id < s.nextCaller
  unanswered : s.answers id = 0
  out (k : Nat) : id ∉ s.asking k

theorem setPool_pools : (s.setPool k p).pools j = if j = k then p else s.pools j :=
  Function.update_apply _ _ _ _

@[simp] theorem setPool_self : (s.setPool k p).pools k = p := Function.update_self _ _ _

theorem setPool_ne (h : j ≠ k) : (s.setPool k p).pools j = s.pools j := Function.update_of_ne h _ _

/-- A property of a pool object and of the new one holds of all. -/
theorem forall_setPool {P : Nat → Pool → Prop} (hk : P k p) (h : ∀ j, P j (s.pools j)) :
    ∀ j, P j ((s.setPool k p).pools j) := by
  intro j
  rw [setPool_pools]
  split
  next heq => exact heq ▸ hk
  next => exact h j

/-- A pool object that gives up no open session and no session in a caller's hands. -/
structure KeepsSessions (s : State) (k : Nat) (p : Pool) : Prop where
  clients {c : Nat} : c ∈ p.clients → c ∈ (s.pools k).clients
  opened {c : Nat} : (s.sessions c).isOpen = true → c ∈ (s.pools k).clients → c ∈ p.clients
  used {l : Lease} : l ∈ s.leases → l.session ∈ p.clients → l.session ∈ (s.pools k).inUse → l.session ∈ p.inUse
  counted {l : Lease} : l ∈ s.leases → (s.sessions l.session).isOpen = true →
    l.session ∈ (s.pools k).bgInUse → l.session ∈ p.bgInUse

/-- It takes in no waiter either, and opens nothing. -/
structure Keeps (s : State) (k : Nat) (p : Pool) : Prop extends KeepsSessions s k p where
  connecting : p.connecting = (s.pools k).connecting
  bgConnecting : p.bgConnecting = (s.pools k).bgConnecting
  waiters : p.waiters.Sublist (s.pools k).waiters
  unmade : s.nextPool ≤ k → s.pools k = {} → p = {}

theorem asking_sublist (h : p.waiters.Sublist (s.pools k).waiters) :
    ((s.setPool k p).asking j).Sublist (s.asking j) := by
  rw [State.asking, State.asking, setPool_pools]
  refine List.Sublist.append ?_ (List.Sublist.refl _)
  split
  next heq => exact heq ▸ h.map _
  next => exact List.Sublist.refl _

theorem LeaseOk.setPool (h : LeaseOk s l) (hl : l ∈ s.leases) (hk : KeepsSessions s k p) : LeaseOk (s.setPool k p) l where
  known := h.known
  used hc := by
    have hc : l.session ∈ ((s.setPool k p).pools (s.sessions l.session).pool).clients := hc
    show l.session ∈ ((s.setPool k p).pools (s.sessions l.session).pool).inUse
    rw [setPool_pools] at hc ⊢
    split at hc
    next heq =>
      rw [if_pos heq]
      exact hk.used hl hc (heq ▸ h.used (heq ▸ hk.clients hc))
    next hne =>
      rw [if_neg hne]
      exact h.used hc
  counted hopen hbg := by
    show l.session ∈ ((s.setPool k p).pools (s.sessions l.session).pool).bgInUse
    rw [setPool_pools]
    have hold := h.counted hopen hbg
    split
    next heq => exact hk.counted hl hopen (heq ▸ hold)
    next => exact hold

theorem SessionsOk.setPool (h : SessionsOk s) (hk : KeepsSessions s k p) : SessionsOk (s.setPool k p) where
  fresh {j c} hc := by
    rw [setPool_pools] at hc
    split at hc
    next heq =>
      subst heq
      exact h.fresh (hk.clients hc)
    next => exact h.fresh hc
  opened {c} hc hopen := by
    show c ∈ ((s.setPool k p).pools (s.sessions c).pool).clients
    have hold := h.opened hc hopen
    rw [setPool_pools]
    split
    next heq => exact hk.opened hopen (heq ▸ hold)
    next => exact hold
  single := h.single
  lease hl := (h.lease hl).setPool hl hk

theorem Inv.setPool (h : Inv n s) (hp : PoolOk n s.nextSession p) (hk : Keeps s k p) :
    Inv n (s.setPool k p) where
  toSessionsOk := h.toSessionsOk.setPool hk.toKeepsSessions
  pool := forall_setPool hp h.pool
  connecting := @forall_setPool _ _ _ (fun k p => p.connecting = s.grows.countP (·.pool = k))
    (hk.connecting.trans (h.connecting k)) h.connecting
  bgConnecting := @forall_setPool _ _ _ (fun k p => p.bgConnecting = s.grows.countP fun g =>
    g.pool = k && g.background) (hk.bgConnecting.trans (h.bgConnecting k)) h.bgConnecting
  queue {j} hne := by
    rw [setPool_pools] at hne
    split at hne
    next heq =>
      subst heq
      exact h.queue fun hnil => hne (List.sublist_nil.mp (hnil ▸ hk.waiters))
    next => exact h.queue hne
  asked j := (asking_sublist hk.waiters).nodup (h.asked j)
  waiting hid := h.waiting ((asking_sublist hk.waiters).mem hid)
  once := h.once
  new := h.new
  unmade {j} hj := by
    rw [setPool_pools]
    split
    next heq =>
      subst heq
      exact hk.unmade hj (h.unmade hj)
    next => exact h.unmade hj
  current := h.current
  drained := h.drained

theorem Inv.ne_of_mem (hc : c ∈ (s.pools k).clients) : s.pools k ≠ {} := by
  intro heq
  rw [heq] at hc
  cases hc

theorem Keeps.timers {timers : Finset Nat}
    (h : s.nextPool ≤ k → s.pools k = {} → { s.pools k with idleTimers := timers } = {}) :
    Keeps s k { s.pools k with idleTimers := timers } :=
  ⟨⟨id, fun _ => id, fun _ _ => id, fun _ _ => id⟩, rfl, rfl, List.Sublist.refl _, h⟩

theorem Inv.disarm (h : Inv n s) : Inv n (s.setPool k ((s.pools k).disarmPoolIdleClose c)) := by
  refine h.setPool (h.pool k).disarm (Keeps.timers fun _ heq => ?_)
  rw [heq]
  rfl

theorem Inv.arm (h : Inv n s) (hk : k < s.nextPool) :
    Inv n (s.setPool k ((s.pools k).armPoolIdleClose c)) :=
  h.setPool (h.pool k).arm (Keeps.timers fun hle => absurd hk (not_lt.mpr hle))

/-- A session that nobody holds is free, and so is one that is closed and out of the pool. -/
theorem Inv.markFree (h : Inv n s) (hc : (∀ l ∈ s.leases, l.session ≠ c) ∨
    ((s.sessions c).isOpen = false ∧ c ∉ (s.pools k).clients)) :
    Inv n (s.setPool k ((s.pools k).markPooledFree c)) := by
  refine h.setPool (h.pool k).markFree ⟨⟨id, fun _ => id, fun {l} hl hmem hused => ?_, fun {l} hl hopen hbg => ?_⟩,
    rfl, rfl, List.Sublist.refl _, fun _ heq => ?_⟩
  · refine Finset.mem_erase.mpr ⟨fun heq => ?_, hused⟩
    rcases hc with hc | ⟨-, hout⟩
    · exact hc l hl heq
    · exact hout (heq ▸ hmem)
  · refine Finset.mem_erase.mpr ⟨fun heq => ?_, hbg⟩
    rcases hc with hc | ⟨hclosed, -⟩
    · exact hc l hl heq
    · rw [heq, hclosed] at hopen
      cases hopen
  · rw [heq]
    rfl

theorem Inv.remove (h : Inv n s) (hc : (s.sessions c).isOpen = false) :
    Inv n (s.setPool k ((s.pools k).remove c)) := by
  refine h.setPool (h.pool k).remove ⟨⟨fun hmem => List.mem_of_mem_filter hmem, fun {c'} hopen hmem => ?_,
    fun _ _ => id, fun _ _ => id⟩, rfl, rfl, List.Sublist.refl _, fun _ heq => ?_⟩
  · refine List.mem_filter.mpr ⟨hmem, ?_⟩
    rw [decide_eq_true_eq]
    rintro rfl
    rw [hc] at hopen
    cases hopen
  · rw [heq]
    rfl

theorem Inv.dequeue (h : Inv n s) (k i : Nat) : Inv n (s.dequeue k i) := by
  refine h.setPool (h.pool k).dequeue ⟨⟨id, fun _ => id, fun _ _ => id, fun _ _ => id⟩,
    rfl, rfl, List.filter_sublist, fun _ heq => ?_⟩
  rw [heq]
  rfl

theorem Inv.answer (h : Inv n s) (hid : Limbo s id) : Inv n (s.answer id) where
  toSessionsOk := ⟨h.fresh, h.opened, h.single,
    fun hl => ⟨(h.lease hl).known, (h.lease hl).used, (h.lease hl).counted⟩⟩
  pool := h.pool
  connecting := h.connecting
  bgConnecting := h.bgConnecting
  queue := h.queue
  asked := h.asked
  waiting {k id'} hid' := by
    have hne : id' ≠ id := fun heq => hid.out k (heq ▸ hid')
    obtain ⟨hlt, hzero⟩ := h.waiting hid'
    exact ⟨hlt, (Function.update_of_ne hne _ _).trans hzero⟩
  once id' := by
    show Function.update s.answers id (s.answers id + 1) id' ≤ 1
    rw [Function.update_apply]
    split
    · rw [hid.unanswered]
    · exact h.once id'
  new {id'} hle := by
    have hne : id' ≠ id := by
      rintro rfl
      exact absurd hid.known (not_lt.mpr hle)
    exact (Function.update_of_ne hne _ _).trans (h.new hle)
  unmade := h.unmade
  current := h.current
  drained := h.drained

theorem Limbo.setPool (h : Limbo s id) (hw : p.waiters.Sublist (s.pools k).waiters) : Limbo (s.setPool k p) id :=
  ⟨h.known, h.unanswered, fun j hj => h.out j ((asking_sublist hw).mem hj)⟩

theorem Inv.limbo_dequeue (h : Inv n s) (hw : w ∈ (s.pools k).waiters) : Limbo (s.dequeue k w.id) w.id := by
  have hmem : w.id ∈ (s.pools k).waiters.map (·.id) := List.mem_map_of_mem hw
  obtain ⟨hlt, hzero⟩ := @h.waiting k _ (List.mem_append_left _ hmem)
  refine ⟨hlt, hzero, fun j hj => ?_⟩
  rcases List.mem_append.mp hj with hj | hj
  · rw [State.dequeue, setPool_pools] at hj
    split at hj
    · obtain ⟨a, ha, heq⟩ := List.mem_map.mp hj
      have := (List.mem_filter.mp ha).2
      simp [heq] at this
    next hne =>
      have hj' : (s.pools j).waiters ≠ [] := fun hnil => by simp [hnil] at hj
      have hk' : (s.pools k).waiters ≠ [] := fun hnil => by simp [hnil] at hw
      exact hne (Option.some.inj ((h.queue hj').symm.trans (h.queue hk')))
  · exact (List.nodup_append.mp (h.asked k)).2.2 _ hmem _ hj rfl

theorem Inv.enqueue (h : Inv n s) (hk : s.current = some k) (hw : Limbo s w.id)
    (hlast : ∀ a ∈ (s.pools k).waiters, a.id < w.id) : Inv n (s.setPool k ((s.pools k).enqueue w)) := by
  have hperm : ((s.pools k).enqueue w).waiters.Perm (w :: (s.pools k).waiters) := by
    rw [Pool.enqueue]
    split
    · exact List.perm_append_singleton _ _
    · exact List.perm_middle.trans (by rw [List.takeWhile_append_dropWhile])
  have hasking : ∀ j, ((s.setPool k ((s.pools k).enqueue w)).asking j).Perm
      (if j = k then w.id :: s.asking j else s.asking j) := by
    intro j
    rw [State.asking, setPool_pools]
    split
    next heq =>
      subst heq
      exact ((hperm.map _).append_right _)
    next => exact List.Perm.refl _
  have hsessions : KeepsSessions s k ((s.pools k).enqueue w) :=
    ⟨id, fun _ => id, fun _ _ => id, fun _ _ => id⟩
  refine ⟨h.toSessionsOk.setPool hsessions, forall_setPool ((h.pool k).enqueue hlast) h.pool, ?_, ?_, ?_, ?_, ?_,
    h.once, h.new, ?_, h.current, h.drained⟩
  · exact @forall_setPool _ _ _ (fun k p => p.connecting = s.grows.countP (·.pool = k)) (h.connecting k) h.connecting
  · exact @forall_setPool _ _ _ (fun k p => p.bgConnecting = s.grows.countP fun g => g.pool = k && g.background)
      (h.bgConnecting k) h.bgConnecting
  · intro j hne
    rw [setPool_pools] at hne
    split at hne
    next heq => exact heq ▸ hk
    next => exact h.queue hne
  · intro j
    refine (hasking j).nodup_iff.mpr ?_
    split
    next heq => exact List.nodup_cons.mpr ⟨hw.out j, h.asked j⟩
    next => exact h.asked j
  · intro j id hid
    have hid := (hasking j).mem_iff.mp hid
    split at hid
    · rcases List.mem_cons.mp hid with rfl | hid
      · exact ⟨hw.known, hw.unanswered⟩
      · exact h.waiting hid
    · exact h.waiting hid
  · intro j hj
    rw [setPool_ne ((h.current hk).trans_le hj).ne']
    exact h.unmade hj

/-! ## Sessions -/

theorem Inv.closeSession (h : Inv n s) (c : Nat) : Inv n (s.closeSession c) := by
  have hpool : ∀ c', ((s.closeSession c).sessions c').pool = (s.sessions c').pool := by
    intro c'
    show (Function.update s.sessions c _ c').pool = _
    rw [Function.update_apply]
    split
    next heq => rw [heq]
    next => rfl
  have hopen : ∀ {c'}, ((s.closeSession c).sessions c').isOpen = true → (s.sessions c').isOpen = true := by
    intro c' hc'
    have hc' : (Function.update s.sessions c { s.sessions c with isOpen := false } c').isOpen = true := hc'
    rw [Function.update_apply] at hc'
    split at hc'
    · cases hc'
    · exact hc'
  have hsessions : SessionsOk (s.closeSession c) := by
    refine ⟨fun hc' => ?_, fun hlt hc' => ?_, h.single, fun hl => ⟨(h.lease hl).known, ?_, ?_⟩⟩
    · rw [hpool]
      exact h.fresh hc'
    · rw [hpool]
      exact h.opened hlt (hopen hc')
    · rw [hpool]
      exact (h.lease hl).used
    · rw [hpool]
      exact fun hc' => (h.lease hl).counted (hopen hc')
  exact { h with toSessionsOk := hsessions }

theorem closeSession_isOpen : ((s.closeSession c).sessions c).isOpen = false := by
  show (Function.update s.sessions c _ c).isOpen = false
  rw [Function.update_self]

theorem Inv.endLease (h : Inv n s) (l : Lease) : Inv n (s.endLease l) := by
  have hsessions : SessionsOk (s.endLease l) := by
    refine ⟨h.fresh, h.opened, (List.erase_sublist.map _).nodup h.single, fun hl => ?_⟩
    have hl := h.lease (List.mem_of_mem_erase hl)
    exact ⟨hl.known, hl.used, hl.counted⟩
  exact { h with toSessionsOk := hsessions }

/-- Nobody holds the session after its lease. -/
theorem Inv.unleased (h : Inv n s) (hl : l ∈ s.leases) : ∀ l' ∈ (s.endLease l).leases, l'.session ≠ l.session := by
  intro l' hl' heq
  have hperm := (List.perm_cons_erase hl).map (·.session)
  have hnodup := hperm.nodup_iff.mp h.single
  rw [List.map_cons, List.nodup_cons] at hnodup
  exact hnodup.1 (List.mem_map.mpr ⟨l', hl', heq⟩)

/-- A session of the pool object that nobody uses goes to a caller. -/
theorem Inv.lend (h : Inv n s) (hc : c ∈ (s.pools k).clients) (hidle : c ∉ (s.pools k).inUse)
    (hcap : background = true → (s.pools k).backgroundPoolFull n = false) {refreshing : Bool} :
    Inv n { s.setPool k ((s.pools k).handOutPooled c background) with leases :=
      { caller := id, session := c, background := background, refreshing := refreshing } :: s.leases } := by
  obtain ⟨hlt, hpool⟩ := h.fresh hc
  have hbg : (s.pools k).bgInUse ⊆ ((s.pools k).handOutPooled c background).bgInUse := by
    cases background with
    | false => exact Finset.Subset.refl _
    | true => exact Finset.subset_insert _ _
  have hkeeps : Keeps s k ((s.pools k).handOutPooled c background) :=
    ⟨⟨fun hc => hc, fun _ hc => hc, fun _ _ hu => Finset.mem_insert_of_mem hu, fun _ _ hu => hbg hu⟩,
      rfl, rfl, List.Sublist.refl _, fun _ heq => absurd heq (Inv.ne_of_mem hc)⟩
  have hset := h.setPool ((h.pool k).handOut hlt hcap) hkeeps
  have hnew : ∀ l ∈ s.leases, l.session ≠ c := by
    rintro l hl rfl
    have hused := (h.lease hl).used
    rw [hpool] at hused
    exact hidle (hused hc)
  have hself : (s.setPool k ((s.pools k).handOutPooled c background)).pools k =
      (s.pools k).handOutPooled c background := setPool_self
  refine { hset with toSessionsOk := ⟨hset.fresh, hset.opened, ?_, fun hl => ?_⟩ }
  · refine List.nodup_cons.mpr ⟨fun hmem => ?_, h.single⟩
    obtain ⟨l, hl, heq⟩ := List.mem_map.mp hmem
    exact hnew l hl heq
  rcases List.mem_cons.mp hl with rfl | hl
  · refine ⟨hlt, fun _ => ?_, fun _ hb => ?_⟩
    · show c ∈ ((s.setPool k ((s.pools k).handOutPooled c background)).pools (s.sessions c).pool).inUse
      rw [hpool, hself]
      exact Finset.mem_insert_self _ _
    · show c ∈ ((s.setPool k ((s.pools k).handOutPooled c background)).pools (s.sessions c).pool).bgInUse
      rw [hpool, hself]
      cases hb
      exact Finset.mem_insert_self _ _
  · have hl := hset.lease hl
    exact ⟨hl.known, hl.used, hl.counted⟩

theorem Inv.handOut (h : Inv n s) (hc : c ∈ (s.pools k).clients) (hidle : c ∉ (s.pools k).inUse)
    (hcap : background = true → (s.pools k).backgroundPoolFull n = false) (hid : Limbo s id) :
    Inv n (s.handOut k c id background) := by
  have hlent := @Inv.lend _ _ _ id _ _ h hc hidle hcap true
  have hlimbo : Limbo (s.setPool k ((s.pools k).handOutPooled c background)) id := hid.setPool (List.Sublist.refl _)
  exact hlent.answer ⟨hlimbo.known, hlimbo.unanswered, hlimbo.out⟩

theorem Inv.growPool (h : Inv n s) (hk : k < s.nextPool)
    (hsize : (s.pools k).clients.length + (s.pools k).connecting < n)
    (hcap : background = true → (s.pools k).backgroundPoolFull n = false) (hid : Limbo s id) :
    Inv n (s.growPool k id background) := by
  have hsessions : KeepsSessions s k ((s.pools k).reserve background) :=
    ⟨fun hc => hc, fun _ hc => hc, fun _ _ hu => hu, fun _ _ hu => hu⟩
  have hset := h.toSessionsOk.setPool hsessions
  have hasking : ∀ j, ((s.growPool k id background).asking j).Perm (id :: s.asking j) := by
    intro j
    have hw : ((s.growPool k id background).pools j).waiters = (s.pools j).waiters := by
      show ((s.setPool k ((s.pools k).reserve background)).pools j).waiters = _
      rw [setPool_pools]
      split
      next heq =>
        subst heq
        rfl
      next => rfl
    rw [State.asking, hw]
    exact List.perm_middle
  refine ⟨⟨hset.fresh, hset.opened, hset.single, fun hl => ⟨(hset.lease hl).known, (hset.lease hl).used,
    (hset.lease hl).counted⟩⟩, forall_setPool ((h.pool k).reserve hsize hcap) h.pool, ?_, ?_, ?_, ?_, ?_, h.once,
    h.new, ?_, h.current, h.drained⟩
  · intro j
    show ((s.setPool k ((s.pools k).reserve background)).pools j).connecting = _
    rw [setPool_pools, State.growPool, List.countP_cons]
    split
    next heq =>
      subst heq
      simp [Pool.reserve, h.connecting j]
    next hne =>
      have hne' : ¬k = j := fun heq => hne heq.symm
      simp [hne', h.connecting j]
  · intro j
    show ((s.setPool k ((s.pools k).reserve background)).pools j).bgConnecting = _
    rw [setPool_pools, State.growPool, List.countP_cons]
    split
    next heq =>
      subst heq
      simp [Pool.reserve, h.bgConnecting j]
    next hne =>
      have hne' : ¬k = j := fun heq => hne heq.symm
      simp [hne', h.bgConnecting j]
  · intro j hne
    refine h.queue fun hnil => hne ?_
    show ((s.setPool k ((s.pools k).reserve background)).pools j).waiters = []
    rw [setPool_pools]
    split
    next heq => exact heq ▸ hnil
    next => exact hnil
  · intro j
    exact (hasking j).nodup_iff.mpr (List.nodup_cons.mpr ⟨hid.out j, h.asked j⟩)
  · intro j id' hid'
    rcases List.mem_cons.mp ((hasking j).mem_iff.mp hid') with rfl | hid'
    · exact ⟨hid.known, hid.unanswered⟩
    · exact h.waiting hid'
  · intro j hj
    show (s.setPool k _).pools j = {}
    rw [setPool_ne (hk.trans_le hj).ne']
    exact h.unmade hj

/-- A grow that is over, its caller not answered yet. -/
def State.unreserved (s : State) (g : Grow) : State :=
  { s.setPool g.pool ((s.pools g.pool).unreserve g.background) with grows := s.grows.erase g }

theorem asking_unreserved (hg : g ∈ s.grows) :
    (s.asking j).Perm (g.caller :: (s.unreserved g).asking j) := by
  have hw : ((s.unreserved g).pools j).waiters = (s.pools j).waiters := by
    show ((s.setPool g.pool ((s.pools g.pool).unreserve g.background)).pools j).waiters = _
    rw [setPool_pools]
    split
    next heq =>
      subst heq
      rfl
    next => rfl
  rw [State.asking, State.asking, hw]
  exact (((List.perm_cons_erase hg).map (·.caller)).append_left _).trans List.perm_middle

theorem Inv.connecting_pos (h : Inv n s) (hg : g ∈ s.grows) : 0 < (s.pools g.pool).connecting := by
  rw [h.connecting]
  exact List.countP_pos_iff.mpr ⟨g, hg, by simp⟩

theorem Inv.bgConnecting_pos (h : Inv n s) (hg : g ∈ s.grows) (hb : g.background = true) :
    0 < (s.pools g.pool).bgConnecting := by
  rw [h.bgConnecting]
  exact List.countP_pos_iff.mpr ⟨g, hg, by simp [hb]⟩

theorem Inv.made (h : Inv n s) (hne : s.pools k ≠ {}) : k < s.nextPool := by
  by_contra hle
  exact hne (h.unmade (not_lt.mp hle))

theorem Inv.made_of_grow (h : Inv n s) (hg : g ∈ s.grows) : g.pool < s.nextPool := by
  refine h.made fun heq => ?_
  have hpos := h.connecting_pos hg
  rw [heq] at hpos
  cases hpos

theorem Inv.unreserved (h : Inv n s) (hg : g ∈ s.grows) :
    Inv n (s.unreserved g) ∧ Limbo (s.unreserved g) g.caller := by
  have hsessions : KeepsSessions s g.pool ((s.pools g.pool).unreserve g.background) :=
    ⟨id, fun _ => id, fun _ _ => id, fun _ _ => id⟩
  have hset := h.toSessionsOk.setPool hsessions
  have hnodup : ∀ j, (g.caller :: (s.unreserved g).asking j).Nodup :=
    fun j => (asking_unreserved hg).nodup_iff.mp (h.asked j)
  have hcount : ∀ q : Grow → Bool, s.grows.countP q = (s.grows.erase g).countP q + if q g then 1 else 0 := by
    intro q
    rw [(List.perm_cons_erase hg).countP_eq, List.countP_cons]
  have hcaller := @h.waiting g.pool g.caller (List.mem_append_right _ (List.mem_map_of_mem hg))
  refine ⟨⟨⟨hset.fresh, hset.opened, hset.single, fun hl => ⟨(hset.lease hl).known, (hset.lease hl).used,
    (hset.lease hl).counted⟩⟩, forall_setPool (h.pool g.pool).unreserve h.pool, ?_, ?_, ?_, ?_, ?_, h.once, h.new,
    ?_, h.current, h.drained⟩, hcaller.1, hcaller.2, fun j => (List.nodup_cons.mp (hnodup j)).1⟩
  · intro j
    show ((s.setPool g.pool ((s.pools g.pool).unreserve g.background)).pools j).connecting =
      (s.grows.erase g).countP _
    have hold := h.connecting j
    rw [hcount] at hold
    rw [setPool_pools]
    split
    next heq =>
      subst heq
      simp only [decide_true, if_true] at hold
      show (s.pools g.pool).connecting - 1 = _
      omega
    next hne =>
      have hne' : ¬g.pool = j := fun heq => hne heq.symm
      simpa [hne'] using hold
  · intro j
    show ((s.setPool g.pool ((s.pools g.pool).unreserve g.background)).pools j).bgConnecting =
      (s.grows.erase g).countP _
    have hold := h.bgConnecting j
    rw [hcount] at hold
    rw [setPool_pools]
    split
    next heq =>
      subst heq
      simp only [decide_true, Bool.true_and] at hold ⊢
      show (s.pools g.pool).bgConnecting - _ = _
      omega
    next hne =>
      have hne' : ¬g.pool = j := fun heq => hne heq.symm
      simpa [hne'] using hold
  · intro j hne
    refine h.queue fun hnil => hne ?_
    show ((s.setPool g.pool ((s.pools g.pool).unreserve g.background)).pools j).waiters = []
    rw [setPool_pools]
    split
    next heq => exact heq ▸ hnil
    next => exact hnil
  · exact fun j => (List.nodup_cons.mp (hnodup j)).2
  · intro j id hid
    exact h.waiting ((asking_unreserved hg).mem_iff.mpr (List.mem_cons_of_mem _ hid))
  · intro j hj
    show (s.setPool g.pool _).pools j = {}
    rw [setPool_ne ((h.made_of_grow hg).trans_le hj).ne']
    exact h.unmade hj

theorem Inv.ungrow (h : Inv n s) (hg : g ∈ s.grows) : Inv n (s.ungrow g) := by
  obtain ⟨hinv, hlimbo⟩ := h.unreserved hg
  exact hinv.answer hlimbo

/-- A new session of a pool object. -/
def State.opened (s : State) (k : Nat) : State :=
  { s.setPool k { s.pools k with clients := (s.pools k).clients ++ [s.nextSession] } with
    sessions := Function.update s.sessions s.nextSession { pool := k, isOpen := true }
    nextSession := s.nextSession + 1 }

theorem opened_sessions (hc : c < s.nextSession) : (s.opened k).sessions c = s.sessions c :=
  Function.update_of_ne hc.ne _ _

theorem Inv.open (h : Inv n s) (hk : k < s.nextPool)
    (hsize : (s.pools k).clients.length + (s.pools k).connecting < n) : Inv n (s.opened k) := by
  have hpools : ∀ j, (s.opened k).pools j =
      if j = k then { s.pools k with clients := (s.pools k).clients ++ [s.nextSession] } else s.pools j :=
    fun j => setPool_pools
  have hnew : ((s.opened k).sessions s.nextSession) = { pool := k, isOpen := true } := Function.update_self _ _ _
  have hclients : ∀ {j c}, c ∈ ((s.opened k).pools j).clients ↔
      c ∈ (s.pools j).clients ∨ (j = k ∧ c = s.nextSession) := by
    intro j c
    rw [hpools]
    split
    next heq =>
      subst heq
      simp
    next hne => simp [hne]
  have hrest : ∀ j, ((s.opened k).pools j).inUse = (s.pools j).inUse ∧
      ((s.opened k).pools j).bgInUse = (s.pools j).bgInUse ∧
      ((s.opened k).pools j).connecting = (s.pools j).connecting ∧
      ((s.opened k).pools j).bgConnecting = (s.pools j).bgConnecting ∧
      ((s.opened k).pools j).waiters = (s.pools j).waiters := by
    intro j
    rw [hpools]
    split
    next heq =>
      subst heq
      exact ⟨rfl, rfl, rfl, rfl, rfl⟩
    next => exact ⟨rfl, rfl, rfl, rfl, rfl⟩
  have hmono : ∀ j, PoolOk n (s.nextSession + 1) (s.pools j) := fun j =>
    { h.pool j with used := fun c hc => Nat.lt_succ_of_lt ((h.pool j).used c hc) }
  refine ⟨⟨?_, ?_, h.single, ?_⟩, ?_, ?_, ?_, ?_, ?_, ?_, h.once, h.new, ?_, h.current, h.drained⟩
  · intro j c hc
    rcases hclients.mp hc with hc | ⟨rfl, rfl⟩
    · obtain ⟨hlt, hpool⟩ := h.fresh hc
      rw [opened_sessions hlt]
      exact ⟨Nat.lt_succ_of_lt hlt, hpool⟩
    · rw [hnew]
      exact ⟨Nat.lt_succ_self _, rfl⟩
  · intro c hc hopen
    rcases (Nat.lt_succ_iff.mp hc).eq_or_lt with rfl | hlt
    · rw [hnew]
      exact hclients.mpr (.inr ⟨rfl, rfl⟩)
    · rw [opened_sessions hlt] at hopen ⊢
      exact hclients.mpr (.inl (h.opened hlt hopen))
  · intro l hl
    obtain ⟨hknown, hused, hcounted⟩ := h.lease hl
    refine ⟨Nat.lt_succ_of_lt hknown, ?_, ?_⟩
    · rw [opened_sessions hknown, (hrest _).1]
      intro hc
      rcases hclients.mp hc with hc | ⟨-, heq⟩
      · exact hused hc
      · exact absurd heq hknown.ne
    · rw [opened_sessions hknown, (hrest _).2.1]
      exact hcounted
  · refine forall_setPool ?_ hmono
    refine { hmono k with nodup := ?_, size := ?_ }
    · refine List.nodup_append.mpr ⟨(h.pool k).nodup, List.nodup_singleton _, fun c hc c' hc' => ?_⟩
      rw [List.mem_singleton.mp hc']
      exact (h.fresh hc).1.ne
    · show ((s.pools k).clients ++ [s.nextSession]).length + (s.pools k).connecting ≤ n
      rw [List.length_append, List.length_singleton]
      omega
  · intro j
    rw [(hrest j).2.2.1]
    exact h.connecting j
  · intro j
    rw [(hrest j).2.2.2.1]
    exact h.bgConnecting j
  · intro j hne
    rw [(hrest j).2.2.2.2] at hne
    exact h.queue hne
  · intro j
    rw [State.asking, (hrest j).2.2.2.2]
    exact h.asked j
  · intro j id hid
    rw [State.asking, (hrest j).2.2.2.2] at hid
    exact h.waiting hid
  · intro j hj
    rw [hpools, if_neg (hk.trans_le hj).ne']
    exact h.unmade hj

theorem Inv.grown (h : Inv n s) (hg : g ∈ s.grows) : Inv n (s.grown g) := by
  have hun := h.ungrow hg
  have hpool : (s.ungrow g).pools g.pool = (s.pools g.pool).unreserve g.background := setPool_self
  have hsize : ((s.ungrow g).pools g.pool).clients.length + ((s.ungrow g).pools g.pool).connecting < n := by
    have hle := (h.pool g.pool).size
    have hpos := h.connecting_pos hg
    rw [hpool]
    show (s.pools g.pool).clients.length + ((s.pools g.pool).connecting - 1) < n
    omega
  have hopen := hun.open (h.made_of_grow hg) hsize
  have hself : ((s.ungrow g).opened g.pool).pools g.pool = { (s.ungrow g).pools g.pool with
      clients := ((s.ungrow g).pools g.pool).clients ++ [(s.ungrow g).nextSession] } := setPool_self
  have hmem : (s.ungrow g).nextSession ∈ (((s.ungrow g).opened g.pool).pools g.pool).clients := by
    rw [hself]
    exact List.mem_append_right _ (List.mem_singleton_self _)
  have hidle : (s.ungrow g).nextSession ∉ (((s.ungrow g).opened g.pool).pools g.pool).inUse := by
    rw [hself]
    exact fun hused => lt_irrefl _ ((hun.pool g.pool).used _ hused)
  have hcap : g.background = true → (((s.ungrow g).opened g.pool).pools g.pool).backgroundPoolFull n = false := by
    intro hb
    have hle := (h.pool g.pool).background
    have hpos := h.bgConnecting_pos hg hb
    rw [hself, hpool]
    simp only [Pool.backgroundPoolFull, decide_eq_false_iff_not, Pool.unreserve, hb, if_true]
    omega
  have hlent := @Inv.lend _ _ _ g.caller _ _ hopen hmem hidle hcap false
  rw [hself] at hlent
  have heq : s.grown g = { ((s.ungrow g).opened g.pool).setPool g.pool (({ (s.ungrow g).pools g.pool with
      clients := ((s.ungrow g).pools g.pool).clients ++ [(s.ungrow g).nextSession] } : Pool).handOutPooled
        (s.ungrow g).nextSession g.background) with
      leases := { caller := g.caller, session := (s.ungrow g).nextSession, background := g.background,
                  refreshing := false } :: ((s.ungrow g).opened g.pool).leases } := by
    simp only [State.grown, State.opened, State.setPool, Function.update_idem]
  rw [heq]
  exact hlent

theorem Inv.ensurePool (h : Inv n s) : Inv n s.ensurePool ∧ ∃ k, s.ensurePool.current = some k := by
  unfold State.ensurePool
  split
  next k hk => exact ⟨h, k, hk⟩
  next hnone =>
    have hpools : Function.update s.pools s.nextPool {} = s.pools := by
      rw [← h.unmade (le_refl s.nextPool), Function.update_eq_self]
    refine ⟨?_, s.nextPool, rfl⟩
    rw [State.setPool, hpools]
    have hsessions : SessionsOk { s with nextPool := s.nextPool + 1, current := some s.nextPool } :=
      ⟨h.fresh, h.opened, h.single, fun hl => ⟨(h.lease hl).known, (h.lease hl).used, (h.lease hl).counted⟩⟩
    refine ⟨hsessions, h.pool, h.connecting, h.bgConnecting, fun hne => ?_, h.asked, h.waiting, h.once, h.new,
      fun hle => h.unmade (Nat.le_of_succ_le hle), fun hk => ?_, h.drained⟩
    · have hk := h.queue hne
      rw [hnone] at hk
      cases hk
    · cases hk
      exact Nat.lt_succ_self _

end MailExpert.ConnectionPool
