import MailExpert.ConnectionPool.Invariant

/-!
# The pool in every run

Each operation is a sequence of the changes of the previous module, so it keeps the invariant; a
`drainWaiters` that ends has either emptied the queue, found no idle session, or stopped at a background head
behind which only background callers wait.
-/

namespace MailExpert.ConnectionPool

variable {n next k j c id : Nat} {p p' : Pool} {s t : State} {w : Waiter} {l : Lease} {g : Grow}
  {background noNewLogin failFastWhenHeld : Bool} {m : Moment}

theorem length_dequeue (hw : w ∈ p.waiters) : (p.dequeue w.id).waiters.length < p.waiters.length :=
  List.length_filter_lt_length_iff_exists.mpr ⟨w, hw, by simp⟩

theorem dequeue_pools : (s.dequeue k id).pools k = (s.pools k).dequeue id := setPool_self

theorem Inv.serve (h : Inv n s) (hw : w ∈ (s.pools k).waiters) (hc : (s.pools k).idle = some c)
    (hcap : w.background = true → (s.pools k).backgroundPoolFull n = false) :
    Inv n ((s.dequeue k w.id).handOut k c w.id w.background) := by
  have hmem : c ∈ ((s.dequeue k w.id).pools k).clients := by
    rw [dequeue_pools]
    exact List.mem_of_find?_eq_some hc
  have hidle : c ∉ ((s.dequeue k w.id).pools k).inUse := by
    rw [dequeue_pools]
    show c ∉ (s.pools k).inUse
    simpa using List.find?_some hc
  refine (h.dequeue k w.id).handOut hmem hidle (fun hb => ?_) (h.limbo_dequeue hw)
  rw [dequeue_pools]
  exact hcap hb

theorem Inv.serveGrow (h : Inv n s) (hw : w ∈ (s.pools k).waiters)
    (hsize : ¬n ≤ (s.pools k).clients.length + (s.pools k).connecting)
    (hcap : w.background = true → (s.pools k).backgroundPoolFull n = false) :
    Inv n ((s.dequeue k w.id).growPool k w.id w.background) := by
  have hmade : k < s.nextPool := by
    refine h.made fun heq => ?_
    rw [heq] at hw
    cases hw
  refine (h.dequeue k w.id).growPool hmade ?_ (fun hb => ?_) (h.limbo_dequeue hw)
  · rw [dequeue_pools]
    exact not_le.mp hsize
  · rw [dequeue_pools]
    exact hcap hb

/-- The invariant after a stretch that leaves the account with the pool object it had. -/
structure Goes (n : Nat) (s t : State) : Prop where
  inv : Inv n t
  current : t.current = s.current

/-- A drain opens and closes nothing. -/
structure Drains (n : Nat) (s t : State) (k : Nat) : Prop extends Goes n s t where
  sessions : t.sessions = s.sessions
  clients : (t.pools k).clients = (s.pools k).clients

structure Round (n : Nat) (s t : State) (k : Nat) : Prop extends Drains n s t k where
  shorter : (t.pools k).waiters.length < (s.pools k).waiters.length

theorem round_of_pool (hinv : Inv n t) (hcurrent : t.current = s.current) (hsessions : t.sessions = s.sessions)
    (hpool : t.pools k = p) (hclients : p.clients = (s.pools k).clients)
    (hwaiters : p.waiters = ((s.pools k).dequeue w.id).waiters) (hw : w ∈ (s.pools k).waiters) :
    Round n s t k := by
  refine ⟨⟨⟨hinv, hcurrent⟩, hsessions, hpool ▸ hclients⟩, ?_⟩
  rw [hpool, hwaiters]
  exact length_dequeue hw

theorem round_serve (h : Inv n s) (hw : w ∈ (s.pools k).waiters) (hc : (s.pools k).idle = some c)
    (hcap : w.background = true → (s.pools k).backgroundPoolFull n = false) :
    Round n s ((s.dequeue k w.id).handOut k c w.id w.background) k := by
  have hpool : ((s.dequeue k w.id).handOut k c w.id w.background).pools k =
      ((s.pools k).dequeue w.id).handOutPooled c w.background := by
    show ((s.dequeue k w.id).setPool k _).pools k = _
    rw [setPool_self, dequeue_pools]
  exact round_of_pool (h.serve hw hc hcap) rfl rfl hpool rfl rfl hw

theorem round_grow (h : Inv n s) (hw : w ∈ (s.pools k).waiters)
    (hsize : ¬n ≤ (s.pools k).clients.length + (s.pools k).connecting)
    (hcap : w.background = true → (s.pools k).backgroundPoolFull n = false) :
    Round n s ((s.dequeue k w.id).growPool k w.id w.background) k := by
  have hpool : ((s.dequeue k w.id).growPool k w.id w.background).pools k =
      ((s.pools k).dequeue w.id).reserve w.background := by
    show ((s.dequeue k w.id).setPool k _).pools k = _
    rw [setPool_self, dequeue_pools]
  exact round_of_pool (h.serveGrow hw hsize hcap) rfl rfl hpool rfl rfl hw

theorem round_refuse (h : Inv n s) (hw : w ∈ (s.pools k).waiters) :
    Round n s ((s.dequeue k w.id).answer w.id) k :=
  round_of_pool ((h.dequeue k w.id).answer (h.limbo_dequeue hw)) rfl rfl dequeue_pools rfl rfl hw

theorem Inv.drainRound (h : Inv n s) (hr : s.drainRound n m k = some t) : Round n s t k := by
  unfold State.drainRound at hr
  dsimp only at hr
  split at hr
  · cases hr
  next head rest hwaiters =>
  have hhead : head ∈ (s.pools k).waiters := by
    rw [hwaiters]
    exact List.mem_cons_self
  split at hr
  · cases hr
  next hfull =>
  have hcap : head.background = true → (s.pools k).backgroundPoolFull n = false := by
    intro hb
    simpa [hb] using hfull
  split at hr
  next free hidle =>
    cases hr
    exact round_serve h hhead hidle hcap
  next hnone =>
  split at hr
  · cases hr
  next hsize =>
  split at hr
  · split at hr
    · obtain ⟨entry, hentry, rfl⟩ := Option.map_eq_some_iff.mp hr
      have hmay := List.find?_some hentry
      simp only [Bool.and_eq_true, Bool.not_eq_true'] at hmay
      refine round_grow h (List.mem_of_find?_eq_some hentry) hsize fun hb => ?_
      simpa [hb] using hmay.2
    · cases hr
      exact round_refuse h hhead
  · cases hr
    exact round_grow h hhead hsize hcap

/-- Where the loop stops, no waiter that could be served waits beside an idle session. -/
theorem served_of_drainRound (h : PoolOk n next (s.pools k)) (hr : s.drainRound n m k = none) :
    Served n (s.pools k) := by
  intro c hc hfree w hw
  unfold State.drainRound at hr
  dsimp only at hr
  split at hr
  next hnil =>
    rw [hnil] at hw
    cases hw
  next head rest hwaiters =>
  split at hr
  next hfull =>
    rw [Bool.and_eq_true] at hfull
    have horder := h.order
    rw [hwaiters] at hw horder
    rw [List.pairwise_cons] at horder
    refine ⟨?_, hfull.2⟩
    rcases List.mem_cons.mp hw with rfl | hw
    · exact hfull.1
    · exact horder.1 w hw hfull.1
  split at hr
  · cases hr
  next hnone =>
    have hout := List.find?_eq_none.mp hnone c hc
    exact absurd hfree (by simpa using hout)

theorem drainLoop_spec {fuel : Nat} (h : Inv n s) (hfuel : (s.pools k).waiters.length ≤ fuel) :
    Drains n s (State.drainLoop n m fuel s k) k ∧ Served n ((State.drainLoop n m fuel s k).pools k) := by
  induction fuel generalizing s with
  | zero =>
    refine ⟨⟨⟨h, rfl⟩, rfl, rfl⟩, fun c _ _ w hw => ?_⟩
    have hnil : (s.pools k).waiters = [] := List.length_eq_zero_iff.mp (Nat.le_zero.mp hfuel)
    rw [State.drainLoop, hnil] at hw
    cases hw
  | succ fuel ih =>
    rw [State.drainLoop]
    split
    next hr => exact ⟨⟨⟨h, rfl⟩, rfl, rfl⟩, served_of_drainRound (h.pool k) hr⟩
    next t hr =>
      obtain ⟨⟨⟨hinv, hcurrent⟩, hsessions, hclients⟩, hshorter⟩ := h.drainRound hr
      obtain ⟨⟨⟨hinv', hcurrent'⟩, hsessions', hclients'⟩, hserved⟩ := ih hinv (by omega)
      exact ⟨⟨⟨hinv', hcurrent'.trans hcurrent⟩, hsessions'.trans hsessions, hclients'.trans hclients⟩, hserved⟩

theorem Inv.drainWaiters (h : Inv n s) : Drains n s (s.drainWaiters n m k) k := by
  obtain ⟨⟨⟨hinv, hcurrent⟩, hsessions, hclients⟩, hserved⟩ := @drainLoop_spec n k s m _ h le_rfl
  have hsessionsOk : SessionsOk (s.drainWaiters n m k) := ⟨hinv.fresh, hinv.opened, hinv.single,
    fun hl => ⟨(hinv.lease hl).known, (hinv.lease hl).used, (hinv.lease hl).counted⟩⟩
  refine ⟨⟨⟨hsessionsOk, hinv.pool, hinv.connecting, hinv.bgConnecting, hinv.queue, hinv.asked, hinv.waiting,
    hinv.once, hinv.new, hinv.unmade, hinv.current, fun p hp => ?_⟩, hcurrent⟩, hsessions, hclients⟩
  rcases List.mem_cons.mp hp with rfl | hp
  · exact hserved
  · exact hinv.drained p hp

/-! ## The other operations -/

theorem setPool_setPool : (s.setPool k p).setPool k p' = s.setPool k p' := by
  simp only [State.setPool, Function.update_idem]

theorem Inv.takeOut (h : Inv n s) (k c : Nat) : Inv n (s.takeOut k c) := by
  have hclosed := h.closeSession c
  have hopen := @closeSession_isOpen c s
  have hremoved := @Inv.remove _ k _ _ hclosed hopen
  have hout : c ∉ (((s.closeSession c).setPool k (((s.closeSession c).pools k).remove c)).pools k).clients := by
    rw [setPool_self]
    intro hmem
    simpa using (List.mem_filter.mp hmem).2
  have hfree := hremoved.markFree (.inr ⟨hopen, hout⟩)
  rw [setPool_self, setPool_setPool] at hfree
  exact hfree

theorem Inv.onClose (h : Inv n s) (m : Moment) (c : Nat) : Goes n s (s.onClose n m c) := by
  unfold State.onClose
  split
  next hnone => exact ⟨h.closeSession c, rfl⟩
  next k hk =>
    have hdrains := @Inv.drainWaiters _ k _ m ((@Inv.disarm _ k c _ h).takeOut k c)
    exact ⟨hdrains.inv, hdrains.current⟩

theorem Inv.close (h : Inv n s) (m : Moment) (c : Nat) : Goes n s (s.close n m c) := by
  unfold State.close
  split
  · exact h.onClose m c
  · exact ⟨h.closeSession c, rfl⟩

/-- The session given back is free, or closed and out of the pool. -/
theorem Inv.release (h : Inv n s) (hc : (∀ l ∈ s.leases, l.session ≠ c) ∨
    ((s.sessions c).isOpen = false ∧ ∀ k, s.current = some k → c ∉ (s.pools k).clients)) :
    Inv n (s.releasePooledClient n m c) := by
  unfold State.releasePooledClient
  split
  · exact (h.close m c).inv
  next k hk =>
  have hmark := @Inv.markFree _ k c _ h (hc.imp_right fun hc => ⟨hc.1, hc.2 k hk⟩)
  dsimp only
  split
  · have hdrains := @Inv.drainWaiters _ k _ m hmark
    split
    · exact hdrains.inv
    · exact hdrains.inv.arm (hdrains.inv.current (hdrains.current.trans hk))
  · exact (hmark.close m c).inv

theorem takeOut_spec : ((s.takeOut k c).sessions c).isOpen = false ∧ c ∉ ((s.takeOut k c).pools k).clients := by
  refine ⟨closeSession_isOpen, ?_⟩
  show c ∉ (((s.closeSession c).setPool k _).pools k).clients
  rw [setPool_self]
  intro hmem
  simpa using (List.mem_filter.mp hmem).2

theorem Inv.failPooled (h : Inv n s) (hc : ∀ l ∈ s.leases, l.session ≠ c) : Inv n (s.failPooled n m c) := by
  unfold State.failPooled
  split
  · exact h.release (.inl hc)
  next k hk =>
    have hdrains := @Inv.drainWaiters _ k _ m (h.takeOut k c)
    obtain ⟨hclosed, hout⟩ := @takeOut_spec k c s
    refine hdrains.inv.release (.inr ⟨?_, fun k' hk' => ?_⟩)
    · rw [hdrains.sessions]
      exact hclosed
    · cases hk.symm.trans (hdrains.current.symm.trans hk')
      rw [hdrains.clients]
      exact hout

theorem Inv.refreshFailed (h : Inv n s) : Inv n (s.refreshFailed n m k c) := by
  have hout := (@Inv.disarm _ k c _ h).takeOut k c
  exact (hout.close m c).inv.drainWaiters.inv

theorem Inv.evictClients {cs : List Nat} (h : Inv n s) : Goes n s (s.evictClients n m k cs) := by
  induction cs generalizing s with
  | nil => exact ⟨h, rfl⟩
  | cons c cs ih =>
    have hdisarm := @Inv.disarm _ k c _ h
    unfold State.evictClients
    dsimp only
    split
    · obtain ⟨hinv, hcurrent⟩ := ih hdisarm
      exact ⟨hinv, hcurrent⟩
    · obtain ⟨hinv, hcurrent⟩ := hdisarm.close m c
      obtain ⟨hinv', hcurrent'⟩ := ih hinv
      exact ⟨hinv', hcurrent'.trans hcurrent⟩

theorem Inv.rejectWaiters {ws : List Waiter} (h : Inv n s) (hws : (s.pools k).waiters = ws) :
    Inv n (s.rejectWaiters k ws) ∧ ((s.rejectWaiters k ws).pools k).waiters = [] := by
  induction ws generalizing s with
  | nil => exact ⟨h, hws⟩
  | cons w ws ih =>
    have hw : w ∈ (s.pools k).waiters := by
      rw [hws]
      exact List.mem_cons_self
    refine ih (round_refuse h hw).inv ?_
    show ((s.dequeue k w.id).pools k).waiters = ws
    rw [dequeue_pools, Pool.dequeue, hws]
    have hnodup := (List.nodup_append.mp (h.asked k)).1
    rw [hws, List.map_cons, List.nodup_cons] at hnodup
    have hrest : ws.filter (·.id ≠ w.id) = ws := by
      refine List.filter_eq_self.mpr fun a ha => ?_
      rw [decide_eq_true_eq]
      intro heq
      exact hnodup.1 (heq ▸ List.mem_map_of_mem ha)
    simpa using hrest

theorem rejectWaiters_current {ws : List Waiter} : (s.rejectWaiters k ws).current = s.current := by
  induction ws generalizing s with
  | nil => rfl
  | cons w ws ih => exact ih

theorem Inv.evictPool (h : Inv n s) : Inv n (s.evictPool n m) := by
  unfold State.evictPool
  split
  · exact h
  next k hk =>
  obtain ⟨hinv, hcurrent⟩ := @Inv.evictClients n k _ m (s.pools k).clients h
  obtain ⟨hreject, hempty⟩ := hinv.rejectWaiters rfl
  dsimp only
  have hsessions := hreject.toSessionsOk
  refine ⟨⟨hsessions.fresh, hsessions.opened, hsessions.single, fun hl => ⟨(hsessions.lease hl).known,
    (hsessions.lease hl).used, (hsessions.lease hl).counted⟩⟩, hreject.pool, hreject.connecting,
    hreject.bgConnecting, fun {j} hne => ?_, hreject.asked, hreject.waiting, hreject.once, hreject.new,
    hreject.unmade, fun hj => ?_, hreject.drained⟩
  · have hj := hreject.queue hne
    rw [rejectWaiters_current, hcurrent, hk] at hj
    cases hj
    exact absurd hempty hne
  · cases hj

def State.arrive (s : State) : State := { s with nextCaller := s.nextCaller + 1 }

theorem Inv.arrive (h : Inv n s) : Inv n s.arrive ∧ Limbo s.arrive s.nextCaller := by
  have hsessions : SessionsOk s.arrive :=
    ⟨h.fresh, h.opened, h.single, fun hl => ⟨(h.lease hl).known, (h.lease hl).used, (h.lease hl).counted⟩⟩
  refine ⟨⟨hsessions, h.pool, h.connecting, h.bgConnecting, h.queue, h.asked, fun hid => ?_, h.once,
    fun hle => h.new (Nat.le_of_succ_le hle), h.unmade, h.current, h.drained⟩, Nat.lt_succ_self _,
    h.new le_rfl, fun k hid => ?_⟩
  · obtain ⟨hlt, hzero⟩ := h.waiting hid
    exact ⟨Nat.lt_succ_of_lt hlt, hzero⟩
  · exact lt_irrefl _ (h.waiting hid).1

theorem Inv.acquireIn (h : Inv n s) (hk : s.current = some k) (hid : Limbo s id)
    (hlast : ∀ a ∈ (s.pools k).waiters, a.id < id) :
    Inv n (s.acquireIn n m k id background noNewLogin failFastWhenHeld) := by
  unfold State.acquireIn
  dsimp only
  split
  next client hidle =>
    split at hidle
    next hmay =>
      refine h.handOut (List.mem_of_find?_eq_some hidle) ?_ (fun hb => ?_) hid
      · simpa using List.find?_some hidle
      · simp only [hb, Bool.true_and, Bool.and_eq_true, Bool.not_eq_true'] at hmay
        exact hmay.1
    next => cases hidle
  next =>
  split
  · exact h.answer hid
  split
  next hgrow =>
    simp only [Bool.and_eq_true, Bool.not_eq_true', decide_eq_true_eq] at hgrow
    refine h.growPool (h.current hk) hgrow.2 (fun hb => ?_) hid
    simpa [hb] using hgrow.1.1.2
  · exact (h.enqueue hk hid hlast).drainWaiters.inv

theorem Inv.acquire (h : Inv n s) : Inv n (s.acquirePooledClient n m background noNewLogin failFastWhenHeld) := by
  obtain ⟨hinv, k, hk⟩ := h.ensurePool
  unfold State.acquirePooledClient
  simp only [hk]
  obtain ⟨harrived, hlimbo⟩ := hinv.arrive
  simp only [State.arrive, hk] at harrived hlimbo
  refine harrived.acquireIn rfl hlimbo fun a ha => ?_
  exact (hinv.waiting (List.mem_append_left _ (List.mem_map_of_mem ha))).1

theorem Inv.timeout (h : Inv n s) (hid : id ∈ (s.pools k).timers) : Inv n ((s.dequeue k id).answer id) := by
  obtain ⟨w, hw, rfl⟩ := List.mem_map.mp ((h.pool k).timers id hid)
  exact (round_refuse h hw).inv

theorem Inv.idleClose (h : Inv n s) (k c : Nat) :
    Inv n ((s.closeSession c).setPool k ((s.pools k).remove c)) :=
  @Inv.remove _ k _ _ (h.closeSession c) closeSession_isOpen

/-- The NOOP came back: the session stays in its caller's hands. -/
theorem Inv.refreshed (h : Inv n s) (hl : l ∈ s.leases) :
    Inv n { s.endLease l with leases := { l with refreshing := false } :: s.leases.erase l } := by
  have hend := h.endLease l
  have hnew := h.unleased hl
  have hold := h.lease hl
  have hsessions : SessionsOk { s.endLease l with leases := { l with refreshing := false } :: s.leases.erase l } := by
    refine ⟨hend.fresh, hend.opened, ?_, fun hl' => ?_⟩
    · refine List.nodup_cons.mpr ⟨fun hmem => ?_, hend.single⟩
      obtain ⟨l', hl', heq⟩ := List.mem_map.mp hmem
      exact hnew l' hl' heq
    · rcases List.mem_cons.mp hl' with rfl | hl'
      · exact ⟨hold.known, hold.used, hold.counted⟩
      · have hl' := hend.lease hl'
        exact ⟨hl'.known, hl'.used, hl'.counted⟩
  exact { hend with toSessionsOk := hsessions }

theorem Inv.step {a : Label} (h : Inv n s) (hstep : s.step n a = some t) : Inv n t := by
  cases a with
  | acquire background noNewLogin failFastWhenHeld m =>
    cases hstep
    exact h.acquire
  | grown g =>
    obtain ⟨hg, heq⟩ := Option.ite_none_right_eq_some.mp hstep
    cases heq
    exact h.grown hg
  | growFailed g =>
    obtain ⟨hg, heq⟩ := Option.ite_none_right_eq_some.mp hstep
    cases heq
    exact h.ungrow hg
  | refreshed l =>
    obtain ⟨hl, heq⟩ := Option.ite_none_right_eq_some.mp hstep
    cases heq
    exact h.refreshed hl.1
  | refreshFailed l m =>
    obtain ⟨-, heq⟩ := Option.ite_none_right_eq_some.mp hstep
    cases heq
    exact (h.endLease l).refreshFailed
  | finished l m =>
    obtain ⟨hl, heq⟩ := Option.ite_none_right_eq_some.mp hstep
    cases heq
    exact (h.endLease l).release (.inl (h.unleased hl.1))
  | failed l m =>
    obtain ⟨hl, heq⟩ := Option.ite_none_right_eq_some.mp hstep
    cases heq
    exact (h.endLease l).failPooled (h.unleased hl.1)
  | closed client m =>
    obtain ⟨-, heq⟩ := Option.ite_none_right_eq_some.mp hstep
    cases heq
    exact (h.onClose m client).inv
  | timeout k id =>
    obtain ⟨hid, heq⟩ := Option.ite_none_right_eq_some.mp hstep
    cases heq
    exact h.timeout hid
  | idleClose k client =>
    obtain ⟨-, heq⟩ := Option.ite_none_right_eq_some.mp hstep
    have hdisarm := @Inv.disarm _ k client _ h
    split at heq
    · cases heq
      exact hdisarm
    · cases heq
      exact hdisarm.idleClose k client
  | evict m =>
    cases hstep
    exact h.evictPool

theorem inv_empty : Inv n empty where
  fresh hc := by cases hc
  opened hc := absurd hc (Nat.not_lt_zero _)
  single := List.nodup_nil
  lease hl := by cases hl
  pool k := ⟨List.nodup_nil, Nat.zero_le _, Nat.zero_le _, List.Pairwise.nil, List.Pairwise.nil,
    fun c hc => absurd hc (Finset.notMem_empty c), fun i hi => absurd hi (Finset.notMem_empty i)⟩
  connecting k := rfl
  bgConnecting k := rfl
  queue hne := absurd rfl hne
  asked k := List.nodup_nil
  waiting hid := by cases hid
  once id := Nat.zero_le _
  new hle := rfl
  unmade hle := rfl
  current hk := by cases hk
  drained p hp := by cases hp

theorem inv : (system n).Invariant TransitionSystem.anyStep (Inv n) where
  init := by
    intro s hs
    cases hs
    exact inv_empty
  step h _ hstep := h.step hstep

def State.openIn (s : State) (k : Nat) : Finset Nat :=
  (Finset.range s.nextSession).filter fun c => (s.sessions c).pool = k ∧ (s.sessions c).isOpen = true

/-- The open sessions of a pool object that background callers hold. -/
def State.heldInBackground (s : State) (k : Nat) : Finset Nat :=
  (s.openIn k).filter fun c => ∃ l ∈ s.leases, l.session = c ∧ l.background = true

/-- What the pool promises its account and its callers. -/
structure Sound (n : Nat) (s : State) : Prop where
  size (k : Nat) : (s.openIn k).card + s.grows.countP (·.pool = k) ≤ n
  background (k : Nat) : (s.heldInBackground k).card + s.grows.countP (fun g => g.pool = k && g.background) ≤
    backgroundPoolCap n
  single {l l' : Lease} : l ∈ s.leases → l' ∈ s.leases → l.session = l'.session → l = l'
  order (k : Nat) : (s.pools k).waiters.Pairwise Before
  arrival (k : Nat) : (s.pools k).waiters.Pairwise Earlier
  once (id : Nat) : s.answers id ≤ 1
  served : ∀ p ∈ s.drained, Served n p

theorem Inv.openIn_subset (h : Inv n s) (k : Nat) : s.openIn k ⊆ (s.pools k).clients.toFinset := by
  intro c hc
  obtain ⟨hlt, rfl, hopen⟩ := Finset.mem_filter.mp hc
  exact List.mem_toFinset.mpr (h.opened (Finset.mem_range.mp hlt) hopen)

theorem Inv.heldInBackground_subset (h : Inv n s) (k : Nat) : s.heldInBackground k ⊆ (s.pools k).bgInUse := by
  intro c hc
  obtain ⟨hc, l, hl, rfl, hb⟩ := Finset.mem_filter.mp hc
  obtain ⟨-, rfl, hopen⟩ := Finset.mem_filter.mp hc
  exact (h.lease hl).counted hopen hb

theorem Inv.sound (h : Inv n s) : Sound n s where
  size k := by
    have hcard := (Finset.card_le_card (h.openIn_subset k)).trans (List.toFinset_card_le _)
    have hsize := (h.pool k).size
    rw [h.connecting] at hsize
    omega
  background k := by
    have hcard := Finset.card_le_card (h.heldInBackground_subset k)
    have hcap := (h.pool k).background
    rw [h.bgConnecting] at hcap
    omega
  single hl hl' heq := List.inj_on_of_nodup_map h.single hl hl' heq
  order k := (h.pool k).order
  arrival k := (h.pool k).arrival
  once := h.once
  served := h.drained

/-- No login is held back, and closing a session calls no handler. -/
def calm : Moment := { held := fun _ => false, emits := fun _ => false }

end MailExpert.ConnectionPool
