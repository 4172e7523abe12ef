import MailExpert.Semaphore.Keyed

/-!
# Slots and waiters

Each key has at most its number of holders, and all of its slots are taken while a call waits. Slots go to the calls in the order in which they
came, and none goes to a call whose timeout fired.
-/

namespace MailExpert.Semaphore

universe u

variable {κ : Type u} {key k : κ} {e i j : Nat} {slot slot' : Slot} {calls calls' : List (Call κ)} {c c' : Call κ} {grants : List Nat}

/-- Slots went to the calls of a key in the order in which they came, and before those that wait. -/
structure InOrder (calls : List (Call κ)) (grants : List Nat) : Prop where
  got : ∀ i ∈ grants, ∃ c, calls[i]? = some c ∧ (c.status = .holding ∨ c.status = .released)
  sorted : grants.Pairwise fun i j => ∀ c c' : Call κ, calls[i]? = some c → calls[j]? = some c' → c.key = c'.key → i < j
  before {i j : Nat} {c c' : Call κ} : i ∈ grants → calls[i]? = some c → calls[j]? = some c' → c'.status = .waiting → c.key = c'.key → i < j

theorem InOrder.append (horder : InOrder calls grants) : InOrder (calls ++ [c]) grants where
  got i hi := by
    obtain ⟨c', hc', hgot⟩ := horder.got i hi
    exact ⟨c', Agents.getElem?_append_some.mpr (.inl hc'), hgot⟩
  sorted := horder.sorted.imp_of_mem fun {i j} hi hj hlt a b ha hb => by
    obtain ⟨a', ha', -⟩ := horder.got i hi
    obtain ⟨b', hb', -⟩ := horder.got j hj
    rw [List.getElem?_append_left (List.getElem?_eq_some_iff.mp ha').1] at ha
    rw [List.getElem?_append_left (List.getElem?_eq_some_iff.mp hb').1] at hb
    exact hlt a b ha hb
  before {i j a b} hi ha hb hwaiting hkey := by
    obtain ⟨a', ha', -⟩ := horder.got i hi
    have hlt := (List.getElem?_eq_some_iff.mp ha').1
    rw [List.getElem?_append_left hlt] at ha
    obtain hb | ⟨rfl, -⟩ := Agents.getElem?_append_some.mp hb
    · exact horder.before hi ha hb hwaiting hkey
    · exact hlt

theorem InOrder.append_grant (horder : InOrder calls grants) (hc : c.status = .holding)
    (hnone : ∀ (j : Nat) (d : Call κ), calls[j]? = some d → d.status = .waiting → d.key ≠ c.key) : InOrder (calls ++ [c]) (grants ++ [calls.length]) where
  got i hi := by
    obtain hi | hi := List.mem_append.mp hi
    · obtain ⟨c', hc', hgot⟩ := horder.got i hi
      exact ⟨c', Agents.getElem?_append_some.mpr (.inl hc'), hgot⟩
    · obtain rfl := List.mem_singleton.mp hi
      exact ⟨c, List.getElem?_concat_length, .inl hc⟩
  sorted := by
    refine List.pairwise_append.mpr ⟨?_, List.pairwise_singleton _ _, ?_⟩
    · refine horder.sorted.imp_of_mem fun {i j} hi hj hlt a b ha hb => ?_
      obtain ⟨a', ha', -⟩ := horder.got i hi
      obtain ⟨b', hb', -⟩ := horder.got j hj
      rw [List.getElem?_append_left (List.getElem?_eq_some_iff.mp ha').1] at ha
      rw [List.getElem?_append_left (List.getElem?_eq_some_iff.mp hb').1] at hb
      exact hlt a b ha hb
    · intro i hi j hj a b ha hb hkey
      obtain rfl := List.mem_singleton.mp hj
      obtain ⟨a', ha', -⟩ := horder.got i hi
      exact (List.getElem?_eq_some_iff.mp ha').1
  before {i j a b} hi ha hb hwaiting hkey := by
    obtain hb | ⟨-, rfl⟩ := Agents.getElem?_append_some.mp hb
    · obtain hi | hi := List.mem_append.mp hi
      · obtain ⟨a', ha', -⟩ := horder.got i hi
        rw [List.getElem?_append_left (List.getElem?_eq_some_iff.mp ha').1] at ha
        exact horder.before hi ha hb hwaiting hkey
      · obtain rfl := List.mem_singleton.mp hi
        rw [List.getElem?_concat_length] at ha
        cases ha
        exact absurd hkey.symm (hnone j b hb hwaiting)
    · rw [hc] at hwaiting
      cases hwaiting

theorem key_of_set {d : Call κ} (hc : calls[i]? = some c) (hkey : c'.key = c.key) (hd : (calls.set i c')[j]? = some d) :
    ∃ d', calls[j]? = some d' ∧ d'.key = d.key := by
  obtain ⟨rfl, rfl⟩ | ⟨-, hd⟩ := (Agents.getElem?_set_some hc).mp hd
  · exact ⟨c, hc, hkey.symm⟩
  · exact ⟨d, hd, rfl⟩

/-- A call that holds ends, or one that waits is refused. -/
theorem InOrder.set (horder : InOrder calls grants) (hc : calls[i]? = some c) (hkey : c'.key = c.key)
    (hgot : c.status = .holding ∨ c.status = .released → c'.status = .holding ∨ c'.status = .released) (hwaiting : c'.status ≠ .waiting) :
    InOrder (calls.set i c') grants where
  got j hj := by
    obtain ⟨d, hd, hgot'⟩ := horder.got j hj
    by_cases hij : i = j
    · subst hij
      cases hc.symm.trans hd
      exact ⟨c', (Agents.getElem?_set_some hc).mpr (.inl ⟨rfl, rfl⟩), hgot hgot'⟩
    · exact ⟨d, (Agents.getElem?_set_some hc).mpr (.inr ⟨hij, hd⟩), hgot'⟩
  sorted := horder.sorted.imp fun {j k} hlt a b ha hb hab => by
    obtain ⟨a', ha', hkeya⟩ := key_of_set hc hkey ha
    obtain ⟨b', hb', hkeyb⟩ := key_of_set hc hkey hb
    exact hlt a' b' ha' hb' (by rw [hkeya, hkeyb, hab])
  before {j k a b} hj ha hb hb' hab := by
    obtain ⟨a', ha', hkeya⟩ := key_of_set hc hkey ha
    obtain ⟨-, rfl⟩ | ⟨-, hb⟩ := (Agents.getElem?_set_some hc).mp hb
    · exact absurd hb' hwaiting
    · exact horder.before hj ha' hb hb' (by rw [hkeya, hab])

theorem InOrder.grant (horder : InOrder calls grants) (hc : calls[i]? = some c) (hwaiting : c.status = .waiting)
    (hfirst : ∀ (j : Nat) (d : Call κ), calls[j]? = some d → d.status = .waiting → d.key = c.key → j ≠ i → i < j) :
    InOrder (calls.set i { c with status := .holding }) (grants ++ [i]) := by
  have hset : InOrder (calls.set i { c with status := .holding }) grants := by
    refine horder.set hc rfl ?_ (by simp)
    rintro (h | h) <;> · rw [hwaiting] at h; cases h
  have hself : (calls.set i { c with status := .holding })[i]? = some { c with status := .holding } :=
    (Agents.getElem?_set_some hc).mpr (.inl ⟨rfl, rfl⟩)
  refine ⟨?_, List.pairwise_append.mpr ⟨hset.sorted, List.pairwise_singleton _ _, ?_⟩, ?_⟩
  · intro j hj
    obtain hj | hj := List.mem_append.mp hj
    · exact hset.got j hj
    · obtain rfl := List.mem_singleton.mp hj
      exact ⟨_, hself, .inl rfl⟩
  · intro g hg j hj a b ha hb hab
    obtain rfl := List.mem_singleton.mp hj
    cases hself.symm.trans hb
    obtain ⟨a', ha', hkey⟩ := key_of_set hc (by rfl) ha
    exact horder.before hg ha' hc hwaiting (hkey.trans hab)
  · intro g j a b hg ha hb hb' hab
    obtain hg | hg := List.mem_append.mp hg
    · exact hset.before hg ha hb hb' hab
    · obtain rfl := List.mem_singleton.mp hg
      cases hself.symm.trans ha
      obtain ⟨-, rfl⟩ | ⟨hne, hb⟩ := (Agents.getElem?_set_some hc).mp hb
      · cases hb'
      · exact hfirst j b hb hb' hab.symm (Ne.symm hne)

theorem getElem?_append_other (hc : c'.key = key) (hk : c.key ≠ key) : (calls ++ [c'])[i]? = some c ↔ calls[i]? = some c := by
  rw [Agents.getElem?_append_some]
  refine ⟨fun h => h.resolve_right ?_, .inl⟩
  rintro ⟨-, rfl⟩
  exact hk hc

theorem getElem?_set_other {d : Call κ} (hd : calls[j]? = some d) (hdk : d.key = key) (hc : c'.key = key) (hk : c.key ≠ key) :
    (calls.set j c')[i]? = some c ↔ calls[i]? = some c := by
  rw [Agents.getElem?_set_some hd]
  constructor
  · rintro (⟨-, rfl⟩ | ⟨-, h⟩)
    · exact absurd hc hk
    · exact h
  · intro h
    refine .inr ⟨?_, h⟩
    rintro rfl
    cases hd.symm.trans h
    exact hk hdk

variable [DecidableEq κ] {limitFor : κ → Nat} {h h' : Slots κ} {s s' : State κ}

/-! ## The map and its entries -/

namespace Slots

/-- An entry has one key; one that has none holds no waiter. -/
structure WF (h : Slots κ) : Prop where
  lt {key : κ} {e : Nat} : h.slots.lookup key = some e → e < h.entries.length
  inj {key k : κ} {e : Nat} : h.slots.lookup key = some e → h.slots.lookup k = some e → key = k
  idle {e : Nat} {slot : Slot} : h.entries[e]? = some slot → (∀ key, h.slots.lookup key ≠ some e) → slot.waiters = []

theorem get?_eq_some : h.get? key = some (e, slot) ↔ h.slots.lookup key = some e ∧ h.entries[e]? = some slot := by
  simp only [get?, Option.bind_eq_some_iff, Option.map_eq_some_iff, Prod.mk.injEq]
  constructor
  · rintro ⟨_, hkey, _, hslot, rfl, rfl⟩
    exact ⟨hkey, hslot⟩
  · rintro ⟨hkey, hslot⟩
    exact ⟨e, hkey, slot, hslot, rfl, rfl⟩

theorem WF.get?_eq_none (hwf : h.WF) : h.get? key = none ↔ h.slots.lookup key = none := by
  cases hkey : h.slots.lookup key with
  | none => simp [get?, hkey]
  | some e => simp [get?, hkey, List.getElem?_eq_getElem (hwf.lt hkey)]

theorem WF.get?_set (hwf : h.WF) (hget : h.get? key = some (e, slot)) : (h.set e slot').get? k = if k = key then some (e, slot') else h.get? k := by
  obtain ⟨hkey, -⟩ := get?_eq_some.mp hget
  split
  next heq =>
    subst heq
    exact get?_eq_some.mpr ⟨hkey, List.getElem?_set_self (hwf.lt hkey)⟩
  next hne =>
    cases hk : h.slots.lookup k with
    | none => simp [get?, set, hk]
    | some e' =>
      have he : e ≠ e' := by
        rintro rfl
        exact hne (hwf.inj hk hkey)
      simp [get?, set, hk, List.getElem?_set_ne he]

theorem WF.get?_create (hwf : h.WF) : (h.create key slot).get? k = if k = key then some (h.entries.length, slot) else h.get? k := by
  split
  next heq =>
    subst heq
    exact get?_eq_some.mpr ⟨AList.lookup_insert _, List.getElem?_concat_length⟩
  next hne =>
    cases hk : h.slots.lookup k with
    | none => simp [get?, create, hk, hne]
    | some e => simp [get?, create, hk, hne, List.getElem?_append_left (hwf.lt hk)]

theorem get?_delete : (h.delete key).get? k = if k = key then none else h.get? k := by
  split
  next heq => simp [get?, delete, Table.lookup_erase', heq]
  next hne => simp [get?, delete, hne]

theorem WF.set (hwf : h.WF) (hget : h.get? key = some (e, slot)) : (h.set e slot').WF where
  lt hk := by
    rw [Slots.set, List.length_set]
    exact hwf.lt hk
  inj := hwf.inj
  idle {e'} _ hslot hno := by
    have he : e ≠ e' := by
      rintro rfl
      exact hno key (get?_eq_some.mp hget).1
    rw [Slots.set, List.getElem?_set_ne he] at hslot
    exact hwf.idle hslot hno

theorem WF.create (hwf : h.WF) (hnone : h.get? key = none) : (h.create key slot).WF where
  lt {k e} hk := by
    rw [Slots.create, Table.lookup_insert'] at hk
    rw [Slots.create, List.length_append, List.length_singleton]
    split at hk
    · cases hk
      exact Nat.lt_succ_self _
    · exact Nat.lt_succ_of_lt (hwf.lt hk)
  inj {k e k'} hk hk' := by
    simp only [Slots.create, Table.lookup_insert'] at hk hk'
    split at hk <;> split at hk'
    next heq heq' => rw [heq, heq']
    next heq hne =>
      cases hk
      exact absurd (hwf.lt hk') (Nat.lt_irrefl _)
    next hne heq =>
      cases hk'
      exact absurd (hwf.lt hk) (Nat.lt_irrefl _)
    next => exact hwf.inj hk hk'
  idle {e slot'} hslot hno := by
    rw [Slots.create, Agents.getElem?_append_some] at hslot
    obtain hslot | ⟨rfl, -⟩ := hslot
    · refine hwf.idle hslot fun k hk => ?_
      have hne : k ≠ key := by
        rintro rfl
        rw [hwf.get?_eq_none.mp hnone] at hk
        cases hk
      exact hno k (by rw [Slots.create, Table.lookup_insert', if_neg hne, hk])
    · exact absurd (AList.lookup_insert _) (hno key)

theorem WF.delete (hwf : h.WF) (hget : h.get? key = some (e, slot)) (hwaiters : slot.waiters = []) : (h.delete key).WF where
  lt {k e'} hk := by
    rw [Slots.delete, Table.lookup_erase'] at hk
    split at hk
    · cases hk
    · exact hwf.lt hk
  inj {k e' k'} hk hk' := by
    simp only [Slots.delete, Table.lookup_erase'] at hk hk'
    split at hk
    · cases hk
    split at hk'
    · cases hk'
    exact hwf.inj hk hk'
  idle {e' slot'} hslot hno := by
    by_cases he : e' = e
    · subst he
      have hslot' : h.entries[e']? = some slot := (get?_eq_some.mp hget).2
      cases hslot'.symm.trans hslot
      exact hwaiters
    · refine hwf.idle hslot fun k hk => ?_
      have hne : k ≠ key := by
        rintro rfl
        cases hk.symm.trans (get?_eq_some.mp hget).1
        exact he rfl
      exact hno k (by rw [Slots.delete, Table.lookup_erase', if_neg hne, hk])

end Slots

def holders (calls : List (Call κ)) (key : κ) : Nat := calls.countP fun c => c.key = key && c.status = .holding

theorem holders_append : holders (calls ++ [c]) key = holders calls key + if c.key = key ∧ c.status = .holding then 1 else 0 := by
  rw [holders, List.countP_append, List.countP_singleton, holders]
  simp

theorem holders_set (key : κ) (c' : Call κ) (hc : calls[i]? = some c) : holders (calls.set i c') key + (if c.key = key ∧ c.status = .holding then 1 else 0) =
    holders calls key + if c'.key = key ∧ c'.status = .holding then 1 else 0 := by
  have h := Agents.countP_set (p := fun c : Call κ => decide (c.key = key) && decide (c.status = .holding)) (b := c') hc
  simpa [holders] using h

structure SlotOk (limitFor : κ → Nat) (calls : List (Call κ)) (key : κ) (e : Nat) (slot : Slot) : Prop where
  mem : ∀ i ∈ slot.waiters, ∃ c, calls[i]? = some c ∧ c.key = key ∧ c.entry = e ∧ c.status = .waiting
  sorted : slot.waiters.Pairwise (· < ·)
  active : slot.active = holders calls key
  pos : 0 < slot.active
  le : slot.active ≤ limitFor key
  full : slot.waiters ≠ [] → slot.active = limitFor key

theorem SlotOk.frame (hok : SlotOk limitFor calls key e slot) (hcalls : ∀ (i : Nat) (c : Call κ), calls[i]? = some c → c.key = key → calls'[i]? = some c)
    (hholders : holders calls' key = holders calls key) : SlotOk limitFor calls' key e slot where
  mem i hi := by
    obtain ⟨c, hc, hkey, he, hwaiting⟩ := hok.mem i hi
    exact ⟨c, hcalls i c hc hkey, hkey, he, hwaiting⟩
  sorted := hok.sorted
  active := hok.active.trans hholders.symm
  pos := hok.pos
  le := hok.le
  full := hok.full

/-- Every entry is right, every waiting call is among its entry's waiters, and a key without an entry has no holder. -/
structure Ok (limitFor : κ → Nat) (slots : Slots κ) (calls : List (Call κ)) : Prop where
  wf : slots.WF
  slot {key : κ} {e : Nat} {slot : Slot} : slots.get? key = some (e, slot) → SlotOk limitFor calls key e slot
  empty {key : κ} : slots.get? key = none → holders calls key = 0
  waits {i : Nat} {c : Call κ} : calls[i]? = some c → c.status = .waiting → ∃ slot, slots.get? c.key = some (c.entry, slot) ∧ i ∈ slot.waiters

structure Inv (limitFor : κ → Nat) (s : State κ) : Prop where
  ok : Ok limitFor s.slots s.calls
  order : InOrder s.calls s.grants

theorem Ok.change {v : Option (Nat × Slot)} (hok : Ok limitFor h calls) (key : κ) (hwf : h'.WF) (hview : ∀ k, h'.get? k = if k = key then v else h.get? k)
    (hholders : ∀ k, k ≠ key → holders calls' k = holders calls k)
    (hkeep : ∀ (i : Nat) (c : Call κ), c.key ≠ key → (calls'[i]? = some c ↔ calls[i]? = some c))
    (hslot : ∀ e slot, v = some (e, slot) → SlotOk limitFor calls' key e slot) (hnone : v = none → holders calls' key = 0)
    (hwaits : ∀ (i : Nat) (c : Call κ), calls'[i]? = some c → c.key = key → c.status = .waiting → ∃ slot, v = some (c.entry, slot) ∧ i ∈ slot.waiters) :
    Ok limitFor h' calls' where
  wf := hwf
  slot {k e slot} hget := by
    rw [hview] at hget
    split at hget
    next heq => exact heq ▸ hslot e slot hget
    next hne => exact (hok.slot hget).frame (fun i c hc hk => (hkeep i c (hk ▸ hne)).mpr hc) (hholders k hne)
  empty {k} hget := by
    rw [hview] at hget
    split at hget
    next heq => exact heq ▸ hnone hget
    next hne => exact (hholders k hne).trans (hok.empty hget)
  waits {i c} hc hwaiting := by
    by_cases hk : c.key = key
    · rw [hview, if_pos hk]
      exact hwaits i c hc hk hwaiting
    · rw [hview, if_neg hk]
      exact hok.waits ((hkeep i c hk).mp hc) hwaiting

/-! ## The operations -/

theorem Ok.append_denied (hok : Ok limitFor h calls) (hc : c.status = .denied) : Ok limitFor h (calls ++ [c]) := by
  have hholders (k : κ) : holders (calls ++ [c]) k = holders calls k := by simp [holders_append, hc]
  refine hok.change c.key (v := h.get? c.key) hok.wf (fun k => ?_) (fun k _ => hholders k) (fun i d hk => getElem?_append_other rfl hk)
    (fun e slot hv => ?_) (fun hv => (hholders _).trans (hok.empty hv)) ?_
  · split
    next heq => rw [heq]
    next => rfl
  · exact (hok.slot hv).frame (fun i d hd _ => Agents.getElem?_append_some.mpr (.inl hd)) (hholders _)
  · intro i d hd hk hwaiting
    obtain hd | ⟨-, rfl⟩ := Agents.getElem?_append_some.mp hd
    · exact hk ▸ hok.waits hd hwaiting
    · rw [hc] at hwaiting
      cases hwaiting

theorem Ok.append_holding (hok : Ok limitFor h calls) (hwf : h'.WF)
    (hview : ∀ k, h'.get? k = if k = c.key then some (e, ⟨holders calls c.key + 1, []⟩) else h.get? k) (hlimit : holders calls c.key < limitFor c.key)
    (hnone : ∀ (j : Nat) (d : Call κ), calls[j]? = some d → d.status = .waiting → d.key ≠ c.key) (hc : c.status = .holding) :
    Ok limitFor h' (calls ++ [c]) := by
  refine hok.change c.key hwf hview (fun k hk => ?_) (fun i d hk => getElem?_append_other rfl hk) (fun e' slot hv => ?_) (fun hv => nomatch hv) ?_
  · simp [holders_append, Ne.symm hk]
  · cases hv
    exact {
      mem := fun i hi => nomatch hi
      sorted := List.Pairwise.nil
      active := by simp [holders_append, hc]
      pos := Nat.succ_pos _
      le := hlimit
      full := fun hne => absurd rfl hne
    }
  · intro i d hd hk hwaiting
    obtain hd | ⟨-, rfl⟩ := Agents.getElem?_append_some.mp hd
    · exact absurd hk (hnone i d hd hwaiting)
    · rw [hc] at hwaiting
      cases hwaiting

/-- No call waits where a slot is free. -/
theorem Ok.not_waiting (hok : Ok limitFor h calls) (key : κ) (hfree : ∀ e slot, h.get? key = some (e, slot) → slot.waiters = []) (j : Nat) (d : Call κ)
    (hd : calls[j]? = some d) (hwaiting : d.status = .waiting) : d.key ≠ key := by
  rintro rfl
  obtain ⟨slot, hget, hmem⟩ := hok.waits hd hwaiting
  rw [hfree _ _ hget] at hmem
  cases hmem

theorem SlotOk.waiters_eq_nil (hslot : SlotOk limitFor calls key e slot) (hlt : slot.active < limitFor key) : slot.waiters = [] := by
  by_contra hne
  exact absurd (hslot.full hne) (Nat.ne_of_lt hlt)

theorem inv_tryAcquire (hlimit : ∀ key, 1 ≤ limitFor key) (hinv : Inv limitFor s) (hstep : step limitFor s (.tryAcquire key) = some s') : Inv limitFor s' := by
  have hok := hinv.ok
  rw [step] at hstep
  cases hget : s.slots.get? key with
  | none =>
    have htry : s.slots.tryAcquire limitFor key = (true, s.slots.create key ⟨1, []⟩) := by rw [Slots.tryAcquire, hget]
    rw [htry] at hstep
    cases hstep
    have hzero := hok.empty hget
    have hnot := hok.not_waiting key fun e slot hsome => nomatch hget.symm.trans hsome
    refine ⟨hok.append_holding (e := s.slots.entries.length) (hok.wf.create hget) (fun k => ?_) ?_ hnot rfl, hinv.order.append_grant rfl hnot⟩
    · rw [hok.wf.get?_create, hzero]
    · rw [hzero]
      exact hlimit key
  | some p =>
    obtain ⟨e, slot⟩ := p
    have hslot := hok.slot hget
    by_cases hfull : limitFor key ≤ slot.active ∨ slot.waiters ≠ []
    · have htry : s.slots.tryAcquire limitFor key = (false, s.slots) := by
        rw [Slots.tryAcquire, hget]
        exact if_pos hfull
      rw [htry] at hstep
      cases hstep
      exact ⟨hok.append_denied rfl, hinv.order.append⟩
    · have htry : s.slots.tryAcquire limitFor key = (true, s.slots.set e { slot with active := slot.active + 1 }) := by
        rw [Slots.tryAcquire, hget]
        exact if_neg hfull
      rw [htry] at hstep
      cases hstep
      rw [not_or, not_le, not_not] at hfull
      have hnot := hok.not_waiting key fun e' slot' hsome => by
        cases hget.symm.trans hsome
        exact hfull.2
      refine ⟨hok.append_holding (e := e) (hok.wf.set hget) (fun k => ?_) (hslot.active ▸ hfull.1) hnot rfl, hinv.order.append_grant rfl hnot⟩
      rw [hok.wf.get?_set hget, ← hslot.active, hfull.2]

theorem inv_acquire {timeout : Bool} (hlimit : ∀ key, 1 ≤ limitFor key) (hinv : Inv limitFor s)
    (hstep : step limitFor s (.acquire key timeout) = some s') : Inv limitFor s' := by
  have hok := hinv.ok
  rw [step] at hstep
  cases hget : s.slots.get? key with
  | none =>
    have hzero := hok.empty hget
    have hnot := hok.not_waiting key fun e slot hsome => nomatch hget.symm.trans hsome
    have hcreate : (s.slots.create key ⟨0, []⟩).get? key = some (s.slots.entries.length, ⟨0, []⟩) := by rw [hok.wf.get?_create, if_pos rfl]
    have hwf : (s.slots.create key ⟨0, []⟩).WF := hok.wf.create hget
    have hacquire : s.slots.acquire limitFor key s.calls.length =
        (true, s.slots.entries.length, (s.slots.create key ⟨0, []⟩).set s.slots.entries.length ⟨1, []⟩) := by
      rw [Slots.acquire, hget]
      exact if_pos (hlimit key)
    rw [hacquire] at hstep
    cases hstep
    refine ⟨hok.append_holding (e := s.slots.entries.length) (hwf.set hcreate) (fun k => ?_) ?_ hnot rfl, hinv.order.append_grant rfl hnot⟩
    · rw [hwf.get?_set hcreate, hok.wf.get?_create, hzero]
      split <;> rfl
    · rw [hzero]
      exact hlimit key
  | some p =>
    obtain ⟨e, slot⟩ := p
    have hslot := hok.slot hget
    by_cases hfree : slot.active < limitFor key
    · have hacquire : s.slots.acquire limitFor key s.calls.length = (true, e, s.slots.set e { slot with active := slot.active + 1 }) := by
        rw [Slots.acquire, hget]
        exact if_pos hfree
      rw [hacquire] at hstep
      cases hstep
      have hnil := hslot.waiters_eq_nil hfree
      have hnot := hok.not_waiting key fun e' slot' hsome => by
        cases hget.symm.trans hsome
        exact hnil
      refine ⟨hok.append_holding (e := e) (hok.wf.set hget) (fun k => ?_) (hslot.active ▸ hfree) hnot rfl, hinv.order.append_grant rfl hnot⟩
      rw [hok.wf.get?_set hget, ← hslot.active, hnil]
    · have hacquire : s.slots.acquire limitFor key s.calls.length =
          (false, e, s.slots.set e { slot with waiters := slot.waiters ++ [s.calls.length] }) := by
        rw [Slots.acquire, hget]
        exact if_neg hfree
      rw [hacquire] at hstep
      cases hstep
      refine ⟨hok.change _ (hok.wf.set hget) (fun k => hok.wf.get?_set hget) (fun k hk => ?_) (fun i d hk => getElem?_append_other rfl hk)
        (fun e' slot' hv => ?_) (fun hv => nomatch hv) ?_, hinv.order.append⟩
      · simp [holders_append]
      · cases hv
        have hlast : s.calls.length ∉ slot.waiters := fun hmem => by
          obtain ⟨d, hd, -⟩ := hslot.mem _ hmem
          exact absurd (List.getElem?_eq_some_iff.mp hd).1 (Nat.lt_irrefl _)
        exact {
          mem := fun i hi => by
            obtain hi | hi := List.mem_append.mp hi
            · obtain ⟨d, hd, hrest⟩ := hslot.mem i hi
              exact ⟨d, Agents.getElem?_append_some.mpr (.inl hd), hrest⟩
            · obtain rfl := List.mem_singleton.mp hi
              exact ⟨_, List.getElem?_concat_length, rfl, rfl, rfl⟩
          sorted := List.pairwise_append.mpr ⟨hslot.sorted, List.pairwise_singleton _ _, fun i hi j hj => by
            obtain rfl := List.mem_singleton.mp hj
            obtain ⟨d, hd, -⟩ := hslot.mem i hi
            exact (List.getElem?_eq_some_iff.mp hd).1⟩
          active := by
            rw [holders_append, hslot.active]
            simp
          pos := hslot.pos
          le := hslot.le
          full := fun _ => Nat.le_antisymm hslot.le (Nat.le_of_not_lt hfree)
        }
      · intro i d hd hk hwaiting
        obtain hd | ⟨rfl, rfl⟩ := Agents.getElem?_append_some.mp hd
        · obtain ⟨slot', hget', hmem⟩ := hok.waits hd hwaiting
          rw [hk, hget, Option.some.injEq, Prod.mk.injEq] at hget'
          obtain ⟨he, rfl⟩ := hget'
          exact ⟨_, by rw [he], List.mem_append_left _ hmem⟩
        · exact ⟨_, rfl, List.mem_append_right _ List.mem_cons_self⟩

theorem holders_pos (hc : calls[i]? = some c) (hholding : c.status = .holding) : 0 < holders calls c.key :=
  List.countP_pos_iff.mpr ⟨c, List.mem_of_getElem? hc, by simp [hholding]⟩

/-- The slot of a call is handed to the first call that waits. -/
theorem inv_hand_over {rest : List Nat} (hinv : Inv limitFor s) (hc : s.calls[i]? = some c) (hholding : c.status = .holding)
    (hget : s.slots.get? c.key = some (e, slot)) (hwaiters : slot.waiters = j :: rest) :
    Inv limitFor (State.grant { s with slots := s.slots.set e { slot with waiters := rest }, calls := s.calls.set i { c with status := .released } } j) := by
  have hok := hinv.ok
  have hslot := hok.slot hget
  obtain ⟨d, hd, hdk, hde, hdw⟩ := hslot.mem j (hwaiters ▸ List.mem_cons_self)
  have hij : i ≠ j := by
    rintro rfl
    cases hc.symm.trans hd
    rw [hholding] at hdw
    cases hdw
  have hd' : (s.calls.set i { c with status := .released })[j]? = some d := (Agents.getElem?_set_some hc).mpr (.inr ⟨hij, hd⟩)
  have hgrant : State.grant { s with slots := s.slots.set e { slot with waiters := rest }, calls := s.calls.set i { c with status := .released } } j =
      ⟨s.slots.set e { slot with waiters := rest }, (s.calls.set i { c with status := .released }).set j { d with status := .holding }, s.grants ++ [j]⟩ := by
    rw [State.grant]
    simp only [hd']
  have hsorted := hwaiters ▸ hslot.sorted
  rw [List.pairwise_cons] at hsorted
  have hcall {i' : Nat} {d' : Call κ} : ((s.calls.set i { c with status := .released }).set j { d with status := .holding })[i']? = some d' ↔
      (j = i' ∧ d' = { d with status := .holding }) ∨ (j ≠ i' ∧ ((i = i' ∧ d' = { c with status := .released }) ∨ (i ≠ i' ∧ s.calls[i']? = some d'))) := by
    rw [Agents.getElem?_set_some hd', Agents.getElem?_set_some hc]
  have hholders (k : κ) : holders ((s.calls.set i { c with status := .released }).set j { d with status := .holding }) k = holders s.calls k := by
    have h1 := holders_set k { c with status := .released } hc
    have h2 := holders_set k { d with status := .holding } hd'
    have hsame : (if d.key = k then 1 else 0) = if c.key = k then 1 else 0 := by rw [hdk]
    simp only [hholding, hdw, and_true, reduceCtorEq, and_false, if_false, Nat.add_zero] at h1 h2
    omega
  rw [hgrant]
  refine ⟨hok.change _ (hok.wf.set hget) (fun k => hok.wf.get?_set hget) (fun k _ => hholders k) (fun i' d' hk => ?_) (fun e' slot' hv => ?_)
    (fun hv => nomatch hv) ?_, ?_⟩
  · rw [hcall]
    constructor
    · rintro (⟨-, rfl⟩ | ⟨-, ⟨-, rfl⟩ | ⟨-, h⟩⟩)
      · exact absurd hdk hk
      · exact absurd rfl hk
      · exact h
    · intro h
      refine .inr ⟨?_, .inr ⟨?_, h⟩⟩
      · rintro rfl
        cases hd.symm.trans h
        exact hk hdk
      · rintro rfl
        cases hc.symm.trans h
        exact hk rfl
  · cases hv
    exact {
      mem := fun i' hi' => by
        obtain ⟨d', hd', hk', he', hw'⟩ := hslot.mem i' (hwaiters ▸ List.mem_cons_of_mem _ hi')
        refine ⟨d', hcall.mpr (.inr ⟨Nat.ne_of_lt (hsorted.1 i' hi'), .inr ⟨?_, hd'⟩⟩), hk', he', hw'⟩
        rintro rfl
        cases hc.symm.trans hd'
        rw [hholding] at hw'
        cases hw'
      sorted := hsorted.2
      active := hslot.active.trans (hholders _).symm
      pos := hslot.pos
      le := hslot.le
      full := fun _ => hslot.full (by rw [hwaiters]; exact List.cons_ne_nil _ _)
    }
  · intro i' d' h hk hwaiting
    obtain ⟨-, rfl⟩ | ⟨hne, ⟨-, rfl⟩ | ⟨-, h⟩⟩ := hcall.mp h
    · cases hwaiting
    · cases hwaiting
    · obtain ⟨slot', hget', hmem⟩ := hok.waits h hwaiting
      rw [hk, hget, Option.some.injEq, Prod.mk.injEq] at hget'
      obtain ⟨he, rfl⟩ := hget'
      rw [hwaiters, List.mem_cons] at hmem
      exact ⟨_, by rw [he], hmem.resolve_left (Ne.symm hne)⟩
  · have hreleased : InOrder (s.calls.set i { c with status := .released }) s.grants := hinv.order.set hc rfl (fun _ => .inr rfl) (by simp)
    refine hreleased.grant hd' hdw fun i' d' h hwaiting hk hne => ?_
    obtain ⟨-, rfl⟩ | ⟨-, h⟩ := (Agents.getElem?_set_some hc).mp h
    · cases hwaiting
    · obtain ⟨slot', hget', hmem⟩ := hok.waits h hwaiting
      rw [hk, hdk, hget, Option.some.injEq, Prod.mk.injEq] at hget'
      obtain ⟨he, rfl⟩ := hget'
      rw [hwaiters, List.mem_cons] at hmem
      exact hsorted.1 i' (hmem.resolve_left hne)

theorem inv_free (hinv : Inv limitFor s) (hc : s.calls[i]? = some c) (hholding : c.status = .holding) (hget : s.slots.get? c.key = some (e, slot))
    (hwaiters : slot.waiters = []) :
    Inv limitFor { s with
      slots := if slot.active - 1 = 0 then (s.slots.set e ⟨slot.active - 1, []⟩).delete c.key else s.slots.set e ⟨slot.active - 1, []⟩
      calls := s.calls.set i { c with status := .released } } := by
  have hok := hinv.ok
  have hslot := hok.slot hget
  have hset : (s.slots.set e ⟨slot.active - 1, []⟩).WF := hok.wf.set hget
  have hself : (s.slots.set e ⟨slot.active - 1, []⟩).get? c.key = some (e, ⟨slot.active - 1, []⟩) := by rw [hok.wf.get?_set hget, if_pos rfl]
  have hholders (k : κ) : holders (s.calls.set i { c with status := .released }) k + (if c.key = k then 1 else 0) = holders s.calls k := by
    have h := holders_set k { c with status := .released } hc
    simpa [hholding] using h
  have hself' : holders (s.calls.set i { c with status := .released }) c.key = slot.active - 1 := by
    have := hholders c.key
    rw [if_pos rfl, ← hslot.active] at this
    omega
  refine ⟨hok.change c.key (v := if slot.active - 1 = 0 then none else some (e, ⟨slot.active - 1, []⟩)) ?_ (fun k => ?_) (fun k hk => ?_)
    (fun i' d' hk => getElem?_set_other hc rfl rfl hk) (fun e' slot' hv => ?_) (fun hv => ?_) ?_,
    hinv.order.set hc rfl (fun _ => .inr rfl) (by simp)⟩
  · split
    · exact hset.delete hself rfl
    · exact hset
  · split
    · rw [Slots.get?_delete, hok.wf.get?_set hget]
      split <;> rfl
    · exact hok.wf.get?_set hget
  · have := hholders k
    rwa [if_neg (Ne.symm hk)] at this
  · split at hv
    · cases hv
    next hne =>
      cases hv
      have hle : slot.active - 1 ≤ limitFor c.key := (Nat.sub_le _ _).trans hslot.le
      exact {
        mem := fun i hi => nomatch hi
        sorted := List.Pairwise.nil
        active := hself'.symm
        pos := Nat.pos_of_ne_zero hne
        le := hle
        full := fun h => absurd rfl h
      }
  · split at hv
    next hzero => exact hself'.trans hzero
    · cases hv
  · intro i' d' h hk hwaiting
    obtain ⟨-, rfl⟩ | ⟨-, h⟩ := (Agents.getElem?_set_some hc).mp h
    · cases hwaiting
    · refine absurd hk (hok.not_waiting _ (fun e' slot' hsome => ?_) i' d' h hwaiting)
      cases hget.symm.trans hsome
      exact hwaiters

theorem release_cases (hinv : Inv limitFor s) (hstep : step limitFor s (.release i) = some s') :
    ∃ c e slot, s.calls[i]? = some c ∧ c.status = .holding ∧ s.slots.get? c.key = some (e, slot) ∧
      ((slot.waiters = [] ∧ s' = { s with
          slots := if slot.active - 1 = 0 then (s.slots.set e ⟨slot.active - 1, []⟩).delete c.key else s.slots.set e ⟨slot.active - 1, []⟩
          calls := s.calls.set i { c with status := .released } }) ∨
        ∃ j rest, slot.waiters = j :: rest ∧
          s' = State.grant { s with slots := s.slots.set e { slot with waiters := rest }, calls := s.calls.set i { c with status := .released } } j) := by
  rw [step] at hstep
  cases hc : s.calls[i]? with
  | none =>
    rw [hc] at hstep
    cases hstep
  | some c =>
    rw [hc] at hstep
    dsimp only at hstep
    split at hstep
    · next hholding =>
      cases hget : s.slots.get? c.key with
      | none =>
        have hpos := holders_pos hc hholding
        rw [hinv.ok.empty hget] at hpos
        exact absurd hpos (Nat.lt_irrefl _)
      | some p =>
        obtain ⟨e, active, waiters⟩ := p
        refine ⟨c, e, ⟨active, waiters⟩, rfl, hholding, hget, ?_⟩
        cases waiters with
        | nil =>
          rw [Slots.release, hget] at hstep
          cases hstep
          exact .inl ⟨rfl, rfl⟩
        | cons j rest =>
          rw [Slots.release, hget] at hstep
          cases hstep
          exact .inr ⟨j, rest, rfl, rfl⟩
    · cases hstep

/-- A timer does nothing, or it takes its call out of the waiters. -/
theorem expire_cases (hstep : step limitFor s (.expire i) = some s') : s' = s ∨
    ∃ c slot, s.calls[i]? = some c ∧ s.slots.entries[c.entry]? = some slot ∧ i ∈ slot.waiters ∧
      s' = { s with slots := s.slots.set c.entry { slot with waiters := slot.waiters.erase i }, calls := s.calls.set i { c with status := .refused } } := by
  rw [step] at hstep
  cases hc : s.calls[i]? with
  | none =>
    rw [hc] at hstep
    cases hstep
  | some c =>
    rw [hc] at hstep
    dsimp only at hstep
    split at hstep
    · cases hentry : s.slots.entries[c.entry]? with
      | none =>
        rw [Slots.expire, hentry] at hstep
        cases hstep
        exact .inl rfl
      | some slot =>
        by_cases hmem : i ∈ slot.waiters
        · have hexpire : s.slots.expire c.entry i = (true, s.slots.set c.entry { slot with waiters := slot.waiters.erase i }) := by
            rw [Slots.expire, hentry]
            exact if_pos hmem
          rw [hexpire] at hstep
          cases hstep
          exact .inr ⟨c, slot, rfl, hentry, hmem, rfl⟩
        · have hexpire : s.slots.expire c.entry i = (false, s.slots) := by
            rw [Slots.expire, hentry]
            exact if_neg hmem
          rw [hexpire] at hstep
          cases hstep
          exact .inl rfl
    · cases hstep

theorem inv_release (hinv : Inv limitFor s) (hstep : step limitFor s (.release i) = some s') : Inv limitFor s' := by
  obtain ⟨c, e, slot, hc, hholding, hget, ⟨hwaiters, rfl⟩ | ⟨j, rest, hwaiters, rfl⟩⟩ := release_cases hinv hstep
  · exact inv_free hinv hc hholding hget hwaiters
  · exact inv_hand_over hinv hc hholding hget hwaiters

/-- A waiter's entry is still its key's. -/
theorem Ok.waiter (hok : Ok limitFor h calls) (hc : calls[i]? = some c) (hentry : h.entries[c.entry]? = some slot) (hmem : i ∈ slot.waiters) :
    h.get? c.key = some (c.entry, slot) ∧ c.status = .waiting := by
  have hkey : ∃ key, h.slots.lookup key = some c.entry := by
    by_contra hno
    rw [not_exists] at hno
    rw [hok.wf.idle hentry hno] at hmem
    cases hmem
  obtain ⟨key, hkey⟩ := hkey
  have hget : h.get? key = some (c.entry, slot) := Slots.get?_eq_some.mpr ⟨hkey, hentry⟩
  obtain ⟨d, hd, hdk, -, hdw⟩ := (hok.slot hget).mem i hmem
  cases hc.symm.trans hd
  exact ⟨hdk ▸ hget, hdw⟩

theorem holders_refused (hc : calls[i]? = some c) (hwaiting : c.status = .waiting) (k : κ) :
    holders (calls.set i { c with status := .refused }) k = holders calls k := by
  have h := holders_set k { c with status := .refused } hc
  simpa [hwaiting] using h

theorem inv_expire (hinv : Inv limitFor s) (hstep : step limitFor s (.expire i) = some s') : Inv limitFor s' := by
  have hok := hinv.ok
  obtain rfl | ⟨c, slot, hc, hentry, hmem, rfl⟩ := expire_cases hstep
  · exact hinv
  obtain ⟨hget, hwaiting⟩ := hok.waiter hc hentry hmem
  have hslot := hok.slot hget
  have hnodup : slot.waiters.Nodup := hslot.sorted.imp Nat.ne_of_lt
  have hholders (k : κ) : holders (s.calls.set i { c with status := .refused }) k = holders s.calls k := holders_refused hc hwaiting k
  refine ⟨hok.change _ (hok.wf.set hget) (fun k => hok.wf.get?_set hget) (fun k _ => hholders k) (fun i' d' hk => getElem?_set_other hc rfl rfl hk)
    (fun e' slot' hv => ?_) (fun hv => nomatch hv) ?_, hinv.order.set hc rfl ?_ (by simp)⟩
  · cases hv
    exact {
      mem := fun i' hi' => by
        obtain ⟨hne, hi'⟩ := hnodup.mem_erase_iff.mp hi'
        obtain ⟨d', hd', hrest⟩ := hslot.mem i' hi'
        exact ⟨d', (Agents.getElem?_set_some hc).mpr (.inr ⟨Ne.symm hne, hd'⟩), hrest⟩
      sorted := hslot.sorted.sublist List.erase_sublist
      active := hslot.active.trans (hholders _).symm
      pos := hslot.pos
      le := hslot.le
      full := fun _ => hslot.full (List.ne_nil_of_mem hmem)
    }
  · intro i' d' h hk hwaiting'
    obtain ⟨-, rfl⟩ | ⟨hne, h⟩ := (Agents.getElem?_set_some hc).mp h
    · cases hwaiting'
    · obtain ⟨slot', hget', hmem'⟩ := hok.waits h hwaiting'
      rw [hk, hget, Option.some.injEq, Prod.mk.injEq] at hget'
      obtain ⟨he, rfl⟩ := hget'
      exact ⟨_, by rw [he], hnodup.mem_erase_iff.mpr ⟨Ne.symm hne, hmem'⟩⟩
  · rintro (h | h) <;> · rw [hwaiting] at h; cases h

/-! ## Every interleaving -/

theorem inv_invariant (hlimit : ∀ key, 1 ≤ limitFor key) : (system limitFor).Invariant TransitionSystem.anyStep (Inv limitFor) where
  init {s} hinit := by
    obtain rfl : s = ⟨⟨[], ∅⟩, [], []⟩ := hinit
    have hget (key : κ) : (⟨[], ∅⟩ : Slots κ).get? key = none := by simp [Slots.get?]
    refine ⟨⟨⟨fun hk => ?_, fun hk => ?_, fun hs => ?_⟩, fun hsome => (nomatch (hget _).symm.trans hsome), fun _ => rfl, fun hc => ?_⟩,
      ⟨fun i hi => (nomatch hi), List.Pairwise.nil, fun hi => (nomatch hi)⟩⟩
    · simp at hk
    · simp at hk
    · simp at hs
    · simp at hc
  step {s l s'} hinv _ hstep := by
    cases l with
    | tryAcquire key => exact inv_tryAcquire hlimit hinv hstep
    | acquire key timeout => exact inv_acquire hlimit hinv hstep
    | release i => exact inv_release hinv hstep
    | expire i => exact inv_expire hinv hstep

def Waits (s : State κ) (key : κ) (i : Nat) : Prop := ∃ c, s.calls[i]? = some c ∧ c.key = key ∧ c.status = .waiting

/-- A call of the key holds a slot, or has held one. -/
def Granted (s : State κ) (key : κ) (i : Nat) : Prop := i ∈ s.grants ∧ ∃ c, s.calls[i]? = some c ∧ c.key = key

theorem Inv.full (hinv : Inv limitFor s) (hwaits : Waits s key i) : holders s.calls key = limitFor key := by
  obtain ⟨c, hc, rfl, hwaiting⟩ := hwaits
  obtain ⟨slot, hget, hmem⟩ := hinv.ok.waits hc hwaiting
  have hslot := hinv.ok.slot hget
  rw [← hslot.active]
  exact hslot.full (List.ne_nil_of_mem hmem)

theorem Inv.le (hinv : Inv limitFor s) (key : κ) : holders s.calls key ≤ limitFor key := by
  cases hget : s.slots.get? key with
  | none =>
    rw [hinv.ok.empty hget]
    exact Nat.zero_le _
  | some p =>
    have hslot : SlotOk limitFor s.calls key p.1 p.2 := hinv.ok.slot hget
    exact hslot.active ▸ hslot.le

theorem Inv.not_waits (hinv : Inv limitFor s) (hnone : s.slots.get? key = none) (i : Nat) : ¬Waits s key i := by
  rintro ⟨c, hc, rfl, hwaiting⟩
  obtain ⟨slot, hget, -⟩ := hinv.ok.waits hc hwaiting
  exact nomatch hnone.symm.trans hget

/-- A call whose timeout fired stays so. -/
theorem refused_step {l : Label κ} (hinv : Inv limitFor s) (hstep : step limitFor s l = some s') (hc : s.calls[i]? = some c)
    (hrefused : c.status = .refused) : s'.calls[i]? = some c := by
  cases l with
  | tryAcquire key =>
    cases hstep
    exact Agents.getElem?_append_some.mpr (.inl hc)
  | acquire key timeout =>
    cases hstep
    exact Agents.getElem?_append_some.mpr (.inl hc)
  | release j =>
    obtain ⟨d, e, slot, hd, hholding, hget, h⟩ := release_cases hinv hstep
    have hne : j ≠ i := by
      rintro rfl
      cases hc.symm.trans hd
      rw [hrefused] at hholding
      cases hholding
    have hset : (s.calls.set j { d with status := .released })[i]? = some c := (Agents.getElem?_set_some hd).mpr (.inr ⟨hne, hc⟩)
    obtain ⟨-, rfl⟩ | ⟨k, rest, hwaiters, rfl⟩ := h
    · exact hset
    · obtain ⟨a, ha, -, -, hwaiting⟩ := (hinv.ok.slot hget).mem k (hwaiters ▸ List.mem_cons_self)
      have hki : k ≠ i := by
        rintro rfl
        cases hc.symm.trans ha
        rw [hrefused] at hwaiting
        cases hwaiting
      rw [State.grant]
      split
      · exact hset
      next b hb => exact (Agents.getElem?_set_some hb).mpr (.inr ⟨hki, hset⟩)
  | expire j =>
    obtain rfl | ⟨d, slot, hd, hentry, hmem, rfl⟩ := expire_cases hstep
    · exact hc
    · refine (Agents.getElem?_set_some hd).mpr (.inr ⟨?_, hc⟩)
      rintro rfl
      cases hc.symm.trans hd
      have := (hinv.ok.waiter hd hentry hmem).2
      rw [hrefused] at this
      cases this

theorem Inv.not_granted (hinv : Inv limitFor s) (hc : s.calls[i]? = some c) (hrefused : c.status = .refused) : i ∉ s.grants := by
  intro hmem
  obtain ⟨d, hd, hgot⟩ := hinv.order.got i hmem
  cases hc.symm.trans hd
  rw [hrefused] at hgot
  obtain h | h := hgot <;> cases h

theorem expire_holders (hinv : Inv limitFor s) (hstep : step limitFor s (.expire i) = some s') (key : κ) : holders s'.calls key = holders s.calls key := by
  obtain rfl | ⟨c, slot, hc, hentry, hmem, rfl⟩ := expire_cases hstep
  · rfl
  · exact holders_refused hc (hinv.ok.waiter hc hentry hmem).2 key

theorem refused_stable (hlimit : ∀ key, 1 ≤ limitFor key) (hrefused : c.status = .refused) :
    (system limitFor).Stable TransitionSystem.anyStep fun s => Inv limitFor s ∧ s.calls[i]? = some c := fun _ _ _ hs _ hstep =>
  ⟨(inv_invariant hlimit).step hs.1 trivial hstep, refused_step hs.1 hstep hs.2 hrefused⟩

end MailExpert.Semaphore
