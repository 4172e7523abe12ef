import MailExpert.Expunge.Held

/-!
# Deleting forever, over every run

Every row a request claims, it has read at that place and wants gone (`Justified`), and while a call lasts its
rows are claimed with its token or gone (`CallOk`). So what a request removes was wanted, stayed where the
request read it, and is removed once (`Sound`).
-/

namespace MailExpert.Expunge

open MoveQueue (Message)

variable {s t : State} {l : Label} {g : Group} {id token k now r r' : Nat} {m m' : Message} {cl : Claim}
  {q q' : Request} {c c' : Call} {lookups : List (Nat × Lookup)} {intent : Intent} {read : List (Nat × Message)}
  {folder : String} {uid : Int} {P : Nat → Prop}

/-- The request found the row at that place, at a server uid, and wants it gone. -/
structure Justified (lookups : List (Nat × Lookup)) (r : Nat) (intent : Intent) (read : List (Nat × Message))
    (id : Nat) (folder : String) (uid : Int) : Prop where
  wanted : ∃ lk, (r, lk) ∈ lookups ∧ Wanted lk intent id folder
  asRead : ∃ m, (id, m) ∈ read ∧ m.folder = folder ∧ m.uid = uid
  server : 0 ≤ uid

theorem Justified.mono {lookups' : List (Nat × Lookup)} (h : Justified lookups r intent read id folder uid)
    (hsub : ∀ e ∈ lookups, e ∈ lookups') : Justified lookups' r intent read id folder uid := by
  obtain ⟨lk, hlk, hwanted⟩ := h.wanted
  exact ⟨⟨lk, hsub _ hlk, hwanted⟩, h.asRead, h.server⟩

def Call.pending (c : Call) : List Nat :=
  match c.stage with
  | .releasing keep => keep
  | _ => c.still.map (·.1)

structure CallOk (s : State) (r : Nat) (q : Request) (c : Call) : Prop where
  token : c.token < s.nextToken
  still : ∀ e ∈ c.still, Justified s.lookups r q.intent q.read e.1 c.folder e.2
  place {id : Nat} {m : Message} : s.Holds c.token id m → m.folder = c.folder ∧ (id, m.uid) ∈ c.still
  held {id : Nat} {m : Message} : id ∈ c.pending → s.messages.lookup id = some m → s.holds c.token id = true
  claimed {id : Nat} : id ∈ c.pending → id ∈ c.still.map (·.1)

structure RequestOk (s : State) (r : Nat) (q : Request) : Prop where
  unique {id : Nat} {m m' : Message} : (id, m) ∈ q.read → (id, m') ∈ q.read → m = m'
  todo : ∀ e ∈ q.todo, e ∈ q.read
  group : ∀ g ∈ q.groups, ∀ e ∈ g.rows, Justified s.lookups r q.intent q.read e.1 g.folder e.2
  call {c : Call} : q.call = some c → CallOk s r q c

/-- No two requests have a call with the same token. -/
def DistinctTokens (requests : List Request) : Prop :=
  ∀ (r r' : Nat) (q q' : Request) (c c' : Call), requests[r]? = some q → q.call = some c →
    requests[r']? = some q' → q'.call = some c' → c.token = c'.token → r = r'

structure Inv (s : State) : Prop extends Columns s where
  request {r : Nat} {q : Request} : s.requests[r]? = some q → RequestOk s r q
  tokens : DistinctTokens s.requests
  once : (s.removals.map (·.id)).Nodup
  gone : ∀ x ∈ s.removals, s.messages.lookup x.id = none
  removed : ∀ x ∈ s.removals, ∃ q, s.requests[x.request]? = some q ∧
    Justified s.lookups x.request q.intent q.read x.id x.folder x.uid

theorem known_of_read (hq : s.requests[r]? = some q) (hmem : (id, m) ∈ q.read) : s.known id = true :=
  List.any_eq_true.mpr ⟨q, List.mem_of_getElem? hq, List.any_eq_true.mpr ⟨(id, m), hmem, by simp⟩⟩

theorem CallOk.known (h : CallOk s r q c) (hq : s.requests[r]? = some q) (hid : id ∈ c.still.map (·.1)) :
    s.known id = true := by
  obtain ⟨e, he, rfl⟩ := List.mem_map.mp hid
  obtain ⟨m, hm, -⟩ := (h.still e he).asRead
  exact known_of_read hq hm

theorem CallOk.keeps (h : CallOk s r q c) (hk : Keeps P s t) (hp : P c.token) (hq : s.requests[r]? = some q) :
    CallOk t r q c where
  token := h.token.trans_le hk.next
  still e he := (h.still e he).mono hk.lookups
  place hh := h.place (hk.back h.token hh)
  held hid hm := by
    obtain ⟨m', hm'⟩ := hk.known (h.known hq (h.claimed hid)) hm
    exact hk.held hp (h.held hid hm') hm
  claimed := h.claimed

theorem RequestOk.keeps (h : RequestOk s r q) (hk : Keeps P s t) (hp : ∀ c, q.call = some c → P c.token)
    (hq : s.requests[r]? = some q) : RequestOk t r q where
  unique := h.unique
  todo := h.todo
  group g hg e he := (h.group g hg e he).mono hk.lookups
  call {c} hc := (h.call hc).keeps hk (hp c hc) hq

/-- A step that removes the rows of `new`. -/
theorem Inv.keeps (h : Inv s) (hk : Keeps P s t)
    (hsame : ∀ {r : Nat} {q : Request}, s.requests[r]? = some q →
      ∃ q', t.requests[r]? = some q' ∧ q'.intent = q.intent ∧ q'.read = q.read)
    (hrequest : ∀ {r : Nat} {q : Request}, t.requests[r]? = some q → RequestOk t r q)
    (htokens : DistinctTokens t.requests)
    {new : List Removal} (hremovals : t.removals = new ++ s.removals) (honce : (new.map (·.id)).Nodup)
    (hnew : ∀ x ∈ new, (∃ m, s.messages.lookup x.id = some m) ∧ t.messages.lookup x.id = none ∧
      ∃ q, t.requests[x.request]? = some q ∧ Justified t.lookups x.request q.intent q.read x.id x.folder x.uid) :
    Inv t where
  toColumns := hk.columns
  request := hrequest
  tokens := htokens
  once := by
    rw [hremovals, List.map_append]
    refine List.nodup_append.mpr ⟨honce, h.once, fun id hid id' hid' heq => ?_⟩
    subst heq
    obtain ⟨x, hx, rfl⟩ := List.mem_map.mp hid
    obtain ⟨y, hy, heq⟩ := List.mem_map.mp hid'
    obtain ⟨⟨m, hm⟩, -⟩ := hnew x hx
    have hgone := h.gone y hy
    rw [heq, hm] at hgone
    cases hgone
  gone x hx := by
    rw [hremovals] at hx
    rcases List.mem_append.mp hx with hx | hx
    · exact (hnew x hx).2.1
    · cases hm : t.messages.lookup x.id with
      | none => rfl
      | some m =>
        obtain ⟨q, hq, hjust⟩ := h.removed x hx
        obtain ⟨m₀, hread, -⟩ := hjust.asRead
        obtain ⟨m', hm'⟩ := hk.known (known_of_read hq hread) hm
        rw [h.gone x hx] at hm'
        cases hm'
  removed x hx := by
    rw [hremovals] at hx
    rcases List.mem_append.mp hx with hx | hx
    · exact (hnew x hx).2.2
    · obtain ⟨q, hq, hjust⟩ := h.removed x hx
      obtain ⟨q', hq', hintent, hread⟩ := hsame hq
      refine ⟨q', hq', ?_⟩
      rw [hintent, hread]
      exact hjust.mono hk.lookups

/-- A step of one request: its call keeps its token, ends, or has a new token. -/
theorem Inv.update (h : Inv s) (hq : s.requests[r]? = some q) (hk : Keeps P s t)
    (hrequests : t.requests = s.requests.set r q')
    (hp : ∀ {r' : Nat} {q : Request} {c : Call}, r' ≠ r → s.requests[r']? = some q → q.call = some c → P c.token)
    (hintent : q'.intent = q.intent) (hread : q'.read = q.read) (hq' : RequestOk t r q')
    (htoken : ∀ c', q'.call = some c' → s.nextToken ≤ c'.token ∨ ∃ c, q.call = some c ∧ c.token = c'.token)
    {new : List Removal} (hremovals : t.removals = new ++ s.removals) (honce : (new.map (·.id)).Nodup)
    (hnew : ∀ x ∈ new, (∃ m, s.messages.lookup x.id = some m) ∧ t.messages.lookup x.id = none ∧
      x.request = r ∧ Justified t.lookups r q.intent q.read x.id x.folder x.uid) : Inv t := by
  have hlt : r < s.requests.length := (List.getElem?_eq_some_iff.mp hq).1
  have hself : t.requests[r]? = some q' := by
    rw [hrequests]
    exact List.getElem?_set_self hlt
  have hother : ∀ {r' : Nat}, r' ≠ r → t.requests[r']? = s.requests[r']? := by
    intro r' hne
    rw [hrequests]
    exact List.getElem?_set_ne (Ne.symm hne)
  -- a token of another request's call is older, and none of this request's
  have hfresh : ∀ {r' : Nat} {q₁ : Request} {c₁ c' : Call}, r' ≠ r → s.requests[r']? = some q₁ → q₁.call = some c₁ → q'.call = some c' →
      c₁.token ≠ c'.token := by
    intro r' q₁ c₁ c' hne hq₁ hc₁ hc' heq
    rcases htoken c' hc' with hnext | ⟨c, hc, hsame⟩
    · have hold := ((h.request hq₁).call hc₁).token
      omega
    · exact hne (h.tokens _ _ _ _ _ _ hq₁ hc₁ hq hc (heq.trans hsame.symm))
  refine h.keeps hk (fun {r' q₁} hq₁ => ?_) (fun {r' q₁} hq₁ => ?_)
    (fun r₁ r₂ q₁ q₂ c₁ c₂ hq₁ hc₁ hq₂ hc₂ heq => ?_) hremovals honce fun x hx => ?_
  · by_cases hne : r' = r
    · subst hne
      cases hq.symm.trans hq₁
      exact ⟨q', hself, hintent, hread⟩
    · exact ⟨q₁, (hother hne).trans hq₁, rfl, rfl⟩
  · by_cases hne : r' = r
    · subst hne
      cases hself.symm.trans hq₁
      exact hq'
    · rw [hother hne] at hq₁
      exact (h.request hq₁).keeps hk (fun c hc => hp hne hq₁ hc) hq₁
  · by_cases hne₁ : r₁ = r
    · subst hne₁
      cases hself.symm.trans hq₁
      by_contra hne₂
      rw [hother (Ne.symm hne₂)] at hq₂
      exact hfresh (Ne.symm hne₂) hq₂ hc₂ hc₁ heq.symm
    · rw [hother hne₁] at hq₁
      by_cases hne₂ : r₂ = r
      · subst hne₂
        cases hself.symm.trans hq₂
        exact absurd heq (hfresh hne₁ hq₁ hc₁ hc₂)
      · rw [hother hne₂] at hq₂
        exact h.tokens _ _ _ _ _ _ hq₁ hc₁ hq₂ hc₂ heq
  · obtain ⟨hrow, hgone, hr, hjust⟩ := hnew x hx
    refine ⟨hrow, hgone, q', hr ▸ hself, ?_⟩
    rw [hr, hintent, hread]
    exact hjust

/-! ## Every step -/

theorem Inv.same (h : Inv s) (hk : Keeps P s t) (hrequests : t.requests = s.requests)
    (hremovals : t.removals = s.removals)
    (hp : ∀ {r : Nat} {q : Request} {c : Call}, s.requests[r]? = some q → q.call = some c → P c.token) : Inv t := by
  refine @Inv.keeps _ _ _ h hk (fun {r q} hq => ⟨q, hrequests ▸ hq, rfl, rfl⟩) (fun {r q} hq => ?_)
    (hrequests ▸ h.tokens) [] hremovals List.nodup_nil fun _ hx => absurd hx List.not_mem_nil
  rw [hrequests] at hq
  exact (h.request hq).keeps hk (fun c hc => hp hq hc) hq

theorem Inv.advance (h : Inv s) (hq : s.requests[r]? = some q) (hk : Keeps P s t)
    (hrequests : t.requests = s.requests.set r q')
    (hp : ∀ {r' : Nat} {q : Request} {c : Call}, r' ≠ r → s.requests[r']? = some q → q.call = some c → P c.token)
    (hintent : q'.intent = q.intent) (hread : q'.read = q.read) (hq' : RequestOk t r q')
    (htoken : ∀ c', q'.call = some c' → s.nextToken ≤ c'.token ∨ ∃ c, q.call = some c ∧ c.token = c'.token)
    (hremovals : t.removals = s.removals) : Inv t :=
  @Inv.update _ _ _ _ _ _ h hq hk hrequests hp hintent hread hq' htoken [] hremovals List.nodup_nil
    fun _ hx => absurd hx List.not_mem_nil

/-- A request that has read its rows. -/
theorem Inv.append (h : Inv s) (hread : ∀ {id m m'}, (id, m) ∈ q.read → (id, m') ∈ q.read → m = m')
    (htodo : q.todo = q.read) (hgroups : q.groups = []) (hcall : q.call = none) :
    Inv { s with requests := s.requests ++ [q] } := by
  have hk : Keeps (fun _ => True) s { s with requests := s.requests ++ [q] } :=
    (Keeps.refl h.toColumns).congr rfl rfl rfl fun _ he => he
  have hold : ∀ {r' : Nat} {q' : Request}, s.requests[r']? = some q' → (s.requests ++ [q])[r']? = some q' :=
    fun hq => (List.getElem?_append_left (List.getElem?_eq_some_iff.mp hq).1).trans hq
  have hnew : ∀ {r' : Nat} {q' : Request}, (s.requests ++ [q])[r']? = some q' →
      s.requests[r']? = some q' ∨ q' = q := by
    intro r' q' hq
    rw [List.getElem?_append] at hq
    split at hq
    · exact .inl hq
    · exact .inr (List.mem_singleton.mp (List.mem_of_getElem? hq))
  refine @Inv.keeps _ _ _ h hk (fun {r' q'} hq => ⟨q', hold hq, rfl, rfl⟩) (fun {r' q'} hq => ?_)
    (fun r₁ r₂ q₁ q₂ c₁ c₂ hq₁ hc₁ hq₂ hc₂ heq => ?_) [] rfl List.nodup_nil fun _ hx => absurd hx List.not_mem_nil
  · rcases hnew hq with hq | rfl
    · exact (h.request hq).keeps hk (fun _ _ => trivial) hq
    · refine ⟨hread, fun e he => htodo ▸ he, fun g hg => ?_, fun hc => ?_⟩
      · rw [hgroups] at hg
        cases hg
      · rw [hcall] at hc
        cases hc
  · rcases hnew hq₁ with hq₁ | rfl
    · rcases hnew hq₂ with hq₂ | rfl
      · exact h.tokens _ _ _ _ _ _ hq₁ hc₁ hq₂ hc₂ heq
      · rw [hcall] at hc₂
        cases hc₂
    · rw [hcall] at hc₁
      cases hc₁

theorem Inv.requested {body : Body} {bulk : Bool} (h : Inv s) (hstep : s.requested body bulk id = some t) : Inv t := by
  obtain ⟨ids, -, rfl⟩ := Option.map_eq_some_iff.mp hstep
  have hrow : ∀ {id : Nat} {m : Message}, (id, m) ∈ s.readRows ids → s.messages.lookup id = some m :=
    fun hm => (Table.mem_select.mp hm).1
  exact h.append (fun hm hm' => Option.some.inj ((hrow hm).symm.trans (hrow hm'))) rfl rfl rfl

theorem mem_byFolder {rows : List (Nat × Message)} {e : Nat × Int} (hg : g ∈ byFolder rows) (he : e ∈ g.rows) :
    ∃ m, (e.1, m) ∈ rows ∧ m.folder = g.folder ∧ m.uid = e.2 := by
  obtain ⟨folder, -, rfl⟩ := List.mem_map.mp hg
  obtain ⟨⟨id, m⟩, hmem, rfl⟩ := List.mem_map.mp he
  obtain ⟨hmem, hfolder⟩ := List.mem_filter.mp hmem
  exact ⟨m, hmem, by simpa using hfolder, rfl⟩

theorem Inv.lookup {account : Nat} {lk : Lookup} (h : Inv s) (hq : s.requests[r]? = some q)
    (hcall : q.call = none) : Inv (s.lookup r account lk q) := by
  have hok := h.request hq
  have hk : Keeps (fun _ => True) s (s.lookup r account lk q) :=
    (Keeps.refl h.toColumns).congr rfl rfl rfl fun _ he => List.mem_cons_of_mem _ he
  refine h.advance hq hk rfl (fun _ _ _ => trivial) rfl rfl ?_ (fun c' hc' => .inr ⟨c', hc', rfl⟩) rfl
  refine ⟨hok.unique, fun e he => hok.todo e (List.mem_of_mem_filter he), fun g hg e he => ?_, fun hc => ?_⟩
  · obtain ⟨m, hm, hfolder, huid⟩ := mem_byFolder hg he
    obtain ⟨hmem, -, hserver⟩ := mem_expungeNow.mp hm
    have hread := hok.todo _ (List.mem_of_mem_filter hmem)
    exact ⟨⟨lk, List.mem_cons_self, hfolder ▸ wanted_of_expungeNow hm⟩, ⟨m, hread, hfolder, huid⟩, huid ▸ hserver⟩
  · rw [hcall] at hc
    cases hc

theorem Inv.claim {rest : List Group} (h : Inv s) (hq : s.requests[r]? = some q) (hgroups : q.groups = g :: rest) :
    Inv (s.claim r now q g rest) := by
  have hok := h.request hq
  have hg : g ∈ q.groups := hgroups ▸ List.mem_cons_self
  have hk : Keeps (fun _ => True) s (s.claim r now q g rest) :=
    (Keeps.claim h.toColumns fun e he => (hok.group g hg e he).server).congr rfl rfl rfl fun _ he => he
  have hcall : ∀ {c' : Call}, (if g.rows.filter (·.1 ∈ (s.claimForExpunge g now).2) = [] then none
      else some { token := s.nextToken, folder := g.folder,
                  still := g.rows.filter (·.1 ∈ (s.claimForExpunge g now).2), stage := Stage.deleting }) = some c' →
      c' = { token := s.nextToken, folder := g.folder,
             still := g.rows.filter (·.1 ∈ (s.claimForExpunge g now).2), stage := Stage.deleting } := by
    intro c' hc'
    split at hc'
    · cases hc'
    · exact (Option.some.inj hc').symm
  refine h.advance hq hk rfl (fun _ _ _ => trivial) rfl rfl ?_ (fun c' hc' => ?_) rfl
  · refine ⟨hok.unique, hok.todo, fun g' hg' => hok.group g' (hgroups ▸ List.mem_cons_of_mem _ hg'), fun hc => ?_⟩
    obtain rfl := hcall hc
    refine ⟨Nat.lt_succ_self _, fun e he => hok.group g hg e (List.mem_of_mem_filter he), fun {id m'} hh => ?_,
      fun {id m} hid hm => ?_, fun hid => hid⟩
    · obtain ⟨cl, hcl, htoken⟩ := State.holds_iff.mp hh.token
      have hcl : (s.claimForExpunge g now).1.claims.lookup id = some cl := hcl
      have htakes : s.Takes g id := by
        by_contra hnot
        rw [State.claims_claimForExpunge_of_not hnot] at hcl
        exact absurd (h.token hcl) (htoken ▸ lt_irrefl _)
      have hmem := (State.mem_claimForExpunge now).mpr htakes
      obtain ⟨m, hm, hclaimable⟩ := htakes
      have hrow := (@State.messages_claimForExpunge s g id now).symm.trans hh.row
      rw [hm, Option.map_some, if_pos hclaimable] at hrow
      cases hrow
      simp only [State.claimable, decide_eq_true_eq] at hclaimable
      exact ⟨hclaimable.2.1, List.mem_filter.mpr ⟨hclaimable.1, decide_eq_true hmem⟩⟩
    · obtain ⟨e, he, rfl⟩ := List.mem_map.mp hid
      have htakes := (State.mem_claimForExpunge now).mp (of_decide_eq_true (List.mem_filter.mp he).2)
      exact State.holds_iff.mpr ⟨_, State.claims_claimForExpunge_of_takes htakes, rfl⟩
  · obtain rfl := hcall hc'
    exact .inl le_rfl

theorem Inv.answer {succeeded : Option (List Int)} (h : Inv s) (hq : s.requests[r]? = some q) (hc : q.call = some c)
    (hstage : c.stage = .deleting) : Inv (s.answer r q c succeeded) := by
  have hok := h.request hq
  have hcall := hok.call hc
  have hk : Keeps (fun _ => True) s (s.answer r q c succeeded) :=
    (Keeps.refl h.toColumns).congr rfl rfl rfl fun _ he => he
  have hpending : ∀ {id : Nat}, id ∈ c.still.map (·.1) → id ∈ c.pending := by
    intro id hid
    rw [Call.pending, hstage]
    exact hid
  refine h.advance hq hk rfl (fun _ _ _ => trivial) rfl rfl ⟨hok.unique, hok.todo, hok.group, fun hc' => ?_⟩
    (fun c' hc' => .inr ⟨c, hc, ?_⟩) rfl
  · cases hc'
    refine ⟨hcall.token, hcall.still, fun hh => hcall.place ⟨hh.row, hh.token⟩, fun {id m} hid hm => ?_,
      fun {id} hid => ?_⟩
    · refine hcall.held (hpending ?_) hm
      cases succeeded with
      | none => exact hid
      | some uids => exact hid
    · refine hcall.claimed (hpending ?_)
      cases succeeded with
      | none => exact hid
      | some uids => exact hid
  · cases hc'
    rfl

/-- A row that a request removes is in its hands. -/
theorem CallOk.removes {rows : List (Nat × Int)} (h : CallOk s r q c)
    (hmem : (id, m) ∈ (s.finishExpunge c.token c.folder rows).2) :
    s.messages.lookup id = some m ∧ m.folder = c.folder ∧ (id, m.uid) ∈ rows ∧ (id, m.uid) ∈ c.still := by
  obtain ⟨hm, hrem⟩ := State.mem_finishExpunge.mp hmem
  simp only [State.removable, decide_eq_true_eq] at hrem
  exact ⟨hm, hrem.2.1, hrem.1, (h.place ⟨hm, hrem.2.2⟩).2⟩

theorem Inv.finish {succeeded : List Int} (h : Inv s) (hq : s.requests[r]? = some q) (hc : q.call = some c)
    (hstage : c.stage = .deleted succeeded) : Inv (s.finish r q c succeeded) := by
  have hok := h.request hq
  have hcall := hok.call hc
  have hk : Keeps (fun _ => True) s (s.finish r q c succeeded) :=
    (Keeps.finish h.toColumns).congr rfl rfl rfl fun _ he => he
  have hkept := hcall.keeps hk trivial hq
  refine @Inv.update _ _ _ _ _ _ h hq hk rfl (fun _ _ _ => trivial) rfl rfl ?_ (fun c' hc' => ?_) _ rfl ?_ fun x hx => ?_
  · refine ⟨hok.unique, hok.todo, hok.group, fun hc' => ?_⟩
    cases hc'
    have hpending : ∀ {id : Nat}, id ∈ ((c.still.map (·.1)).filter
        (· ∉ (s.finishExpunge c.token c.folder (c.still.filter (·.2 ∈ succeeded))).2.map (·.1))) →
        id ∈ c.pending := by
      intro id hid
      rw [Call.pending, hstage]
      exact List.mem_of_mem_filter hid
    exact ⟨hkept.token, hkept.still, fun hh => hkept.place ⟨hh.row, hh.token⟩,
      fun hid hm => hkept.held (hpending hid) hm, fun hid => hkept.claimed (hpending hid)⟩
  · cases hc'
    exact .inr ⟨c, hc, rfl⟩
  · rw [List.map_map]
    refine List.Nodup.map_on ?_ Table.nodup_select
    intro e he e' he' heq
    obtain ⟨id, m⟩ := e
    obtain ⟨id', m'⟩ := e'
    have heq : id = id' := heq
    subst heq
    have hm := (Table.mem_select.mp he).1
    have hm' := (Table.mem_select.mp he').1
    cases hm.symm.trans hm'
    rfl
  · obtain ⟨⟨id, m⟩, hmem, rfl⟩ := List.mem_map.mp hx
    obtain ⟨hm, hfolder, -, hstill⟩ := hcall.removes hmem
    have hjust := hcall.still _ hstill
    refine ⟨⟨m, hm⟩, ?_, rfl, ?_⟩
    · have hrem := (State.mem_finishExpunge.mp hmem).2
      refine State.messages_finishExpunge.trans ?_
      show (s.messages.lookup id).filter _ = none
      rw [hm, Option.filter_some, hrem]
      rfl
    · show Justified s.lookups r q.intent q.read id m.folder m.uid
      rw [hfolder]
      exact hjust

theorem Inv.release {keep : List Nat} (h : Inv s) (hq : s.requests[r]? = some q) (hc : q.call = some c) :
    Inv ((s.releaseExpungeClaim c.token keep).setRequest r { q with call := none }) := by
  have hok := h.request hq
  have hk : Keeps (fun k => ∀ id, s.holds k id = true → (decide (id ∈ keep ∧ s.holds c.token id = true)) = false) s
      ((s.releaseExpungeClaim c.token keep).setRequest r { q with call := none }) :=
    (Keeps.unclaim h.toColumns).congr rfl rfl rfl fun _ he => he
  refine h.advance hq hk rfl (fun {r' q' c'} hne hq' hc' id hh => ?_) rfl rfl
    ⟨hok.unique, hok.todo, hok.group, fun hc' => by cases hc'⟩ (fun c' hc' => by cases hc') rfl
  rw [decide_eq_false_iff_not]
  intro hboth
  obtain ⟨cl, hcl, heq⟩ := State.holds_iff.mp hh
  obtain ⟨cl', hcl', heq'⟩ := State.holds_iff.mp hboth.2
  cases hcl.symm.trans hcl'
  exact hne (h.tokens _ _ _ _ _ _ hq' hc' hq hc (heq.symm.trans heq'))

theorem Inv.sweep (h : Inv s) (hprompt : prompt s (.sweep now) = true) :
    Inv (s.releaseStaleExpungeClaims EXPUNGE_CLAIM_LEASE_MS now) := by
  refine h.same (Keeps.unclaim h.toColumns) rfl rfl fun {r q c} hq hc id hh => ?_
  obtain ⟨cl, hcl, heq⟩ := State.holds_iff.mp hh
  rw [hcl, Option.any_some, decide_eq_false_iff_not]
  intro hstale
  have hfresh := @Table.all_of_entries Nat Claim s.claims id cl _ (fun _ cl => decide (now < cl.claimedAt + EXPUNGE_CLAIM_LEASE_MS) ||
    s.requests.all fun (q : Request) => q.call.all fun (c : Call) => decide (c.token ≠ cl.token)) hprompt hcl
  rw [Bool.or_eq_true] at hfresh
  rcases hfresh with hlt | hunused
  · rw [decide_eq_true_eq] at hlt
    omega
  · have hcall := List.all_eq_true.mp hunused q (List.mem_of_getElem? hq)
    rw [hc, Option.all_some, decide_eq_true_eq] at hcall
    exact hcall heq.symm

theorem Inv.restart (h : Inv s) : Inv { s.unclaim (fun _ => true) with
    requests := s.requests.map fun q => { q with todo := [], groups := [], call := none } } := by
  have hk : Keeps (fun k => ∀ id, s.holds k id = true → true = false) s { s.unclaim (fun _ => true) with
      requests := s.requests.map fun q => { q with todo := [], groups := [], call := none } } :=
    (Keeps.unclaim h.toColumns).congr rfl rfl rfl fun _ he => he
  have hcall : ∀ {r : Nat} {q : Request}, (s.requests.map fun q => { q with todo := [], groups := [], call := none })[r]? =
      some q → ∃ q₀, s.requests[r]? = some q₀ ∧ q = { q₀ with todo := [], groups := [], call := none } := by
    intro r q hq
    rw [List.getElem?_map, Option.map_eq_some_iff] at hq
    obtain ⟨q₀, hq₀, rfl⟩ := hq
    exact ⟨q₀, hq₀, rfl⟩
  refine @Inv.keeps _ _ _ h hk (fun {r q} hq => ?_) (fun {r q} hq => ?_)
    (fun r₁ r₂ q₁ q₂ c₁ c₂ hq₁ hc₁ _ _ _ => ?_) [] rfl List.nodup_nil fun _ hx => absurd hx List.not_mem_nil
  · refine ⟨{ q with todo := [], groups := [], call := none }, ?_, rfl, rfl⟩
    show (s.requests.map _)[r]? = _
    rw [List.getElem?_map, hq]
    rfl
  · obtain ⟨q₀, hq₀, rfl⟩ := hcall hq
    exact ⟨(h.request hq₀).unique, fun e he => absurd he List.not_mem_nil, fun g hg => absurd hg List.not_mem_nil,
      fun hc => by cases hc⟩
  · obtain ⟨q₀, -, rfl⟩ := hcall hq₁
    cases hc₁

theorem Inv.step (h : Inv s) (hprompt : prompt s l = true) (hstep : s.step l = some t) : Inv t := by
  cases l with
  | queue l =>
    have hk : Keeps (fun _ => True) s t := Keeps.queue h.toColumns hstep
    obtain ⟨-, hstep⟩ := Option.ite_none_right_eq_some.mp hstep
    obtain ⟨queue, -, rfl⟩ := Option.map_eq_some_iff.mp hstep
    exact h.same hk rfl rfl fun _ _ => trivial
  | request body bulk id => exact h.requested hstep
  | lookup r account lk =>
    obtain ⟨q, hq, hstep⟩ := Option.bind_eq_some_iff.mp hstep
    obtain ⟨hidle, heq⟩ := Option.ite_none_right_eq_some.mp hstep
    cases heq
    exact h.lookup hq hidle.1
  | claim r now =>
    obtain ⟨q, hq, hstep⟩ := Option.bind_eq_some_iff.mp hstep
    split at hstep
    next g rest hcall hgroups =>
      cases hstep
      exact h.claim hq hgroups
    next => cases hstep
  | answer r succeeded =>
    obtain ⟨q, hq, hstep⟩ := Option.bind_eq_some_iff.mp hstep
    obtain ⟨c, hc, hstep⟩ := Option.bind_eq_some_iff.mp hstep
    obtain ⟨hstage, heq⟩ := Option.ite_none_right_eq_some.mp hstep
    cases heq
    exact h.answer hq hc hstage
  | finish r =>
    obtain ⟨q, hq, hstep⟩ := Option.bind_eq_some_iff.mp hstep
    obtain ⟨c, hc, hstep⟩ := Option.bind_eq_some_iff.mp hstep
    split at hstep
    next succeeded hstage =>
      cases hstep
      exact h.finish hq hc hstage
    next => cases hstep
  | release r =>
    obtain ⟨q, hq, hstep⟩ := Option.bind_eq_some_iff.mp hstep
    obtain ⟨c, hc, hstep⟩ := Option.bind_eq_some_iff.mp hstep
    split at hstep
    next keep hstage =>
      cases hstep
      exact h.release hq hc
    next => cases hstep
  | giveUp r =>
    obtain ⟨q, hq, hstep⟩ := Option.bind_eq_some_iff.mp hstep
    obtain ⟨hcall, heq⟩ := Option.ite_none_right_eq_some.mp hstep
    cases heq
    have hok := h.request hq
    have hk : Keeps (fun _ => True) s (s.setRequest r { q with groups := [] }) :=
      (Keeps.refl h.toColumns).congr rfl rfl rfl fun _ he => he
    refine h.advance hq hk rfl (fun _ _ _ => trivial) rfl rfl ⟨hok.unique, hok.todo,
      fun g hg => absurd hg List.not_mem_nil, fun hc => ?_⟩ (fun c' hc' => .inr ⟨c', hc', rfl⟩) rfl
    rw [hcall] at hc
    cases hc
  | sweep now =>
    cases hstep
    exact h.sweep hprompt
  | restart =>
    cases hstep
    exact h.restart

theorem Inv.init (h : Initial s) : Inv s := by
  obtain ⟨hqueue, hfree, hclaims, hrequests, -, hremovals⟩ := h
  have hcolumns : Columns s := by
    refine ⟨.init hqueue, fun {id} => ?_, fun {id cl} hcl => ?_, fun {id m} hm hclaim => ?_⟩
    · rw [hclaims]
      constructor
      · intro hsome
        cases hsome
      · rintro ⟨m, hm, hclaim⟩
        rw [hfree id m hm] at hclaim
        cases hclaim
    · rw [hclaims] at hcl
      cases hcl
    · rw [hfree id m hm] at hclaim
      cases hclaim
  have hnone : ∀ {r : Nat} {q : Request}, s.requests[r]? = some q → False := by
    intro r q hq
    rw [hrequests] at hq
    cases hq
  refine ⟨hcolumns, fun hq => (hnone hq).elim, fun _ _ _ _ _ _ hq => (hnone hq).elim, ?_, fun x hx => ?_,
    fun x hx => ?_⟩
  · rw [hremovals]
    exact List.nodup_nil
  · rw [hremovals] at hx
    cases hx
  · rw [hremovals] at hx
    cases hx

theorem inv : system.Invariant (fun s l => prompt s l = true) Inv where
  init := Inv.init
  step h hprompt hstep := h.step hprompt hstep

/-! ## What a run leaves of a claimed row -/

theorem Inv.step_keeps (h : Inv s) (hstep : s.step l = some t) : ∃ P, Keeps P s t := by
  cases l with
  | queue l => exact ⟨fun _ => True, Keeps.queue h.toColumns hstep⟩
  | request body bulk id =>
    obtain ⟨ids, -, rfl⟩ := Option.map_eq_some_iff.mp hstep
    exact ⟨fun _ => True, (Keeps.refl h.toColumns).congr rfl rfl rfl fun _ he => he⟩
  | lookup r account lk =>
    obtain ⟨q, hq, hstep⟩ := Option.bind_eq_some_iff.mp hstep
    obtain ⟨-, heq⟩ := Option.ite_none_right_eq_some.mp hstep
    cases heq
    exact ⟨fun _ => True, (Keeps.refl h.toColumns).congr rfl rfl rfl fun _ he => List.mem_cons_of_mem _ he⟩
  | claim r now =>
    obtain ⟨q, hq, hstep⟩ := Option.bind_eq_some_iff.mp hstep
    split at hstep
    next g rest hcall hgroups =>
      cases hstep
      have hg : g ∈ q.groups := hgroups ▸ List.mem_cons_self
      have hpos : ∀ e ∈ g.rows, 0 ≤ e.2 := fun e he => ((h.request hq).group g hg e he).server
      exact ⟨fun _ => True, (Keeps.claim h.toColumns hpos).congr rfl rfl rfl fun _ he => he⟩
    next => cases hstep
  | answer r succeeded =>
    obtain ⟨q, hq, hstep⟩ := Option.bind_eq_some_iff.mp hstep
    obtain ⟨c, hc, hstep⟩ := Option.bind_eq_some_iff.mp hstep
    obtain ⟨hstage, heq⟩ := Option.ite_none_right_eq_some.mp hstep
    cases heq
    exact ⟨fun _ => True, (Keeps.refl h.toColumns).congr rfl rfl rfl fun _ he => he⟩
  | finish r =>
    obtain ⟨q, hq, hstep⟩ := Option.bind_eq_some_iff.mp hstep
    obtain ⟨c, hc, hstep⟩ := Option.bind_eq_some_iff.mp hstep
    split at hstep
    next succeeded hstage =>
      cases hstep
      exact ⟨fun _ => True, (Keeps.finish h.toColumns).congr rfl rfl rfl fun _ he => he⟩
    next => cases hstep
  | release r =>
    obtain ⟨q, hq, hstep⟩ := Option.bind_eq_some_iff.mp hstep
    obtain ⟨c, hc, hstep⟩ := Option.bind_eq_some_iff.mp hstep
    split at hstep
    next keep hstage =>
      cases hstep
      exact ⟨_, (Keeps.unclaim h.toColumns).congr rfl rfl rfl fun _ he => he⟩
    next => cases hstep
  | giveUp r =>
    obtain ⟨q, hq, hstep⟩ := Option.bind_eq_some_iff.mp hstep
    obtain ⟨-, heq⟩ := Option.ite_none_right_eq_some.mp hstep
    cases heq
    exact ⟨fun _ => True, (Keeps.refl h.toColumns).congr rfl rfl rfl fun _ he => he⟩
  | sweep now =>
    cases hstep
    exact ⟨_, Keeps.unclaim h.toColumns⟩
  | restart =>
    cases hstep
    exact ⟨_, (Keeps.unclaim h.toColumns).congr rfl rfl rfl fun _ he => he⟩

theorem next_le (hs : system.ReachesUnder (fun s l => prompt s l = true) s)
    (hr : system.Run (fun s l => prompt s l = true) s t) : s.nextToken ≤ t.nextToken := by
  induction hr with
  | refl => exact le_rfl
  | tail hr hg hstep ih =>
    obtain ⟨P, hkeeps⟩ := (inv.reachesUnder (hs.run hr)).step_keeps hstep
    exact ih.trans hkeeps.next

/-- From the state in which the token is drawn on, a row that still has it was never moved. -/
theorem held_since (hs : system.ReachesUnder (fun s l => prompt s l = true) s)
    (hr : system.Run (fun s l => prompt s l = true) s t) (hk : k < s.nextToken) (hh : t.Holds k id m) :
    s.Holds k id m := by
  induction hr with
  | refl => exact hh
  | tail hr hg hstep ih =>
    have hinv := inv.reachesUnder (hs.run hr)
    obtain ⟨P, hkeeps⟩ := hinv.step_keeps hstep
    have hle := next_le hs hr
    exact ih (hkeeps.back (hk.trans_le hle) hh)

/-- The row is where it was claimed, and no move of it is pending. -/
structure InPlace (s : State) (token id : Nat) (m : Message) : Prop where
  holds : s.Holds token id m
  unmoved : ∀ n mv, s.queue.db.moves.lookup n = some mv → mv.messageRowId ≠ id

theorem Inv.inPlace (h : Inv s) (hh : s.Holds k id m) : InPlace s k id m := by
  refine ⟨hh, fun n mv hmv hid => ?_⟩
  have hclaimed := h.claimed hh
  obtain ⟨-, hat⟩ := h.queue.chained.idle_of_uid hclaimed.row hclaimed.pos.le
  exact absurd (hat.mem hmv hid) (by simp)

/-- The next thing the request does about the row is to release its claim. -/
def Spared (s : State) (r id : Nat) : Prop :=
  ∃ q c keep, s.requests[r]? = some q ∧ q.call = some c ∧ c.stage = .releasing keep ∧ id ∈ keep

theorem spared_setRequest {keep : List Nat} (hq : s.requests[r]? = some q) (hrequests : t.requests = s.requests.set r q')
    (hc : q'.call = some c) (hstage : c.stage = .releasing keep) (hid : id ∈ keep) : Spared t r id := by
  refine ⟨q', c, keep, ?_, hc, hstage, hid⟩
  rw [hrequests]
  exact List.getElem?_set_self (List.getElem?_eq_some_iff.mp hq).1

theorem step_finish {succeeded : List Int} (hq : s.requests[r]? = some q) (hc : q.call = some c)
    (hstage : c.stage = .deleted succeeded) : s.step (.finish r) = some (s.finish r q c succeeded) := by
  simp [State.step, hq, hc, hstage]

theorem step_release {keep : List Nat} (hq : s.requests[r]? = some q) (hc : q.call = some c)
    (hstage : c.stage = .releasing keep) : s.step (.release r) =
      some ((s.releaseExpungeClaim c.token keep).setRequest r { q with call := none }) := by
  simp [State.step, hq, hc, hstage]

theorem step_answer {succeeded : Option (List Int)} (hq : s.requests[r]? = some q) (hc : q.call = some c)
    (hstage : c.stage = .deleting) : s.step (.answer r succeeded) = some (s.answer r q c succeeded) := by
  simp [State.step, hq, hc, hstage]

/-- A row whose uid the server did not report stays as it is. -/
theorem Inv.left {succeeded : List Int} (h : Inv s) (hq : s.requests[r]? = some q) (hc : q.call = some c)
    (hmem : (id, uid) ∈ c.still) (hnot : uid ∉ succeeded) :
    (s.finish r q c succeeded).messages.lookup id = s.messages.lookup id ∧ Spared (s.finish r q c succeeded) r id := by
  have hok := h.request hq
  have hcall := hok.call hc
  have hkept : ∀ {m}, s.messages.lookup id = some m →
      s.removable c.token c.folder (c.still.filter (·.2 ∈ succeeded)) id m = false := by
    intro m hm
    rw [Bool.eq_false_iff]
    intro hrem
    obtain ⟨-, -, hrows, hstill⟩ := hcall.removes (State.mem_finishExpunge.mpr ⟨hm, hrem⟩)
    obtain ⟨m₁, hm₁, -, huid₁⟩ := (hcall.still _ hstill).asRead
    obtain ⟨m₂, hm₂, -, huid₂⟩ := (hcall.still _ hmem).asRead
    cases hok.unique hm₁ hm₂
    have huid : uid = m.uid := huid₂.symm.trans huid₁
    exact hnot (huid ▸ of_decide_eq_true (List.mem_filter.mp hrows).2)
  refine ⟨?_, spared_setRequest hq rfl rfl rfl ?_⟩
  · refine State.messages_finishExpunge.trans ?_
    cases hm : s.messages.lookup id with
    | none => rfl
    | some m => rw [Option.filter_some, hkept hm, Bool.not_false, if_pos rfl]
  · refine List.mem_filter.mpr ⟨List.mem_map.mpr ⟨(id, uid), hmem, rfl⟩, decide_eq_true fun hremoved => ?_⟩
    obtain ⟨⟨id', m⟩, hrow, rfl⟩ := List.mem_map.mp hremoved
    obtain ⟨hm, hrem⟩ := State.mem_finishExpunge.mp hrow
    rw [hkept hm] at hrem
    cases hrem

/-- A released row is as it was, unclaimed. -/
theorem Inv.unclaimed {keep : List Nat} (h : Inv s) (hq : s.requests[r]? = some q) (hc : q.call = some c)
    (hstage : c.stage = .releasing keep) (hid : id ∈ keep) :
    (s.releaseExpungeClaim c.token keep).messages.lookup id =
      (s.messages.lookup id).map (fun m => { m with expungeClaim := false }) ∧
    (s.releaseExpungeClaim c.token keep).claims.lookup id = none := by
  have hcall := (h.request hq).call hc
  have hpending : id ∈ c.pending := by
    rw [Call.pending, hstage]
    exact hid
  cases hm : s.messages.lookup id with
  | none =>
    refine ⟨State.messages_unclaim.trans (by rw [hm]; rfl), State.claims_unclaim.trans ?_⟩
    split
    · rfl
    · cases hcl : s.claims.lookup id with
      | none => rfl
      | some cl =>
        obtain ⟨m, hrow, -⟩ := h.column.mp (Option.isSome_of_eq_some hcl)
        rw [hm] at hrow
        cases hrow
  | some m =>
    have hgone : (decide (id ∈ keep ∧ s.holds c.token id = true)) = true :=
      decide_eq_true ⟨hid, hcall.held hpending hm⟩
    refine ⟨State.messages_unclaim.trans ?_, State.claims_unclaim.trans (if_pos hgone)⟩
    rw [hm, Option.map_some, Option.map_some, if_pos hgone]

/-- What deleting forever promises, in a run where no server delete outlives its claim. -/
structure Sound (s : State) : Prop where
  wanted : ∀ x ∈ s.removals, ∃ q lk, s.requests[x.request]? = some q ∧ (x.request, lk) ∈ s.lookups ∧
    Wanted lk q.intent x.id x.folder
  asRead : ∀ x ∈ s.removals, ∃ q m, s.requests[x.request]? = some q ∧ (x.id, m) ∈ q.read ∧ m.folder = x.folder ∧
    m.uid = x.uid
  once : (s.removals.map (·.id)).Nodup
  stayed {r id : Nat} {q : Request} {c : Call} {succeeded : List Int} {m : Message} {u : State} :
    s.requests[r]? = some q → q.call = some c → c.stage = .deleted succeeded →
    (id, m) ∈ (s.finishExpunge c.token c.folder (c.still.filter (·.2 ∈ succeeded))).2 →
    system.ReachesUnder (fun s l => prompt s l = true) u → system.Run (fun s l => prompt s l = true) u s →
    c.token < u.nextToken → InPlace u c.token id m
  unanswered {r id : Nat} {q : Request} {c : Call} {uid : Int} {t : State} :
    s.requests[r]? = some q → q.call = some c → (id, uid) ∈ c.still → c.stage = .deleting →
    s.step (.answer r none) = some t → t.messages = s.messages ∧ Spared t r id
  unreported {r id : Nat} {q : Request} {c : Call} {succeeded : List Int} {uid : Int} {t : State} :
    s.requests[r]? = some q → q.call = some c → (id, uid) ∈ c.still → c.stage = .deleted succeeded →
    uid ∉ succeeded → s.step (.finish r) = some t → t.messages.lookup id = s.messages.lookup id ∧ Spared t r id
  released {r id : Nat} {t : State} : Spared s r id → s.step (.release r) = some t →
    t.messages.lookup id = (s.messages.lookup id).map (fun m => { m with expungeClaim := false }) ∧
      t.claims.lookup id = none

def trashed : State where
  queue := .ofRows [(7, { account := 1, folder := "Trash", uid := 5 })]
  claims := ∅
  nextToken := 0
  requests := []
  lookups := []
  removals := []

theorem trashed_initial : Initial trashed := by
  refine ⟨.ofRows (by simp), fun id m hm => ?_, rfl, rfl, rfl, rfl⟩
  have hrow : (Table.insertAll ∅ [(7, ({ account := 1, folder := "Trash", uid := 5 } : Message))]).lookup id = some m :=
    hm
  rcases Table.mem_of_lookup_insertAll hrow with hmem | hnone
  · rw [List.mem_singleton, Prod.mk.injEq] at hmem
    rw [hmem.2]
  · cases hnone

def mailbox : Lookup where
  trash := [{ path := "Trash", name := "Trash" }]
  allTrash := [{ path := "Trash", name := "Trash" }]
  allDrafts := [{ path := "Drafts", name := "Drafts" }]
  mappings := { trash := "Trash" }
  draftsMapping := "Drafts"

/-- **Deleting forever leaves the moves whole**: no placeholder is left without its move, and a row under a claim is at a server uid. -/
theorem deletes_beside_moves (h : system.ReachesUnder (fun s l => prompt s l = true) s) :
    MoveQueue.PlaceholdersResolve s.queue.db ∧ ∀ id, (s.claims.lookup id).isSome = true →
      ∃ m, s.messages.lookup id = some m ∧ m.expungeClaim = true ∧ 0 < m.uid ∧
        ∀ n mv, s.queue.db.moves.lookup n = some mv → mv.messageRowId ≠ id := by
  have hcolumns := (inv.reachesUnder h).toColumns
  refine ⟨hcolumns.queue.chained.placeholdersResolve, fun id hclaim => ?_⟩
  obtain ⟨m, hm, hflag⟩ := hcolumns.column.mp hclaim
  have hpos := hcolumns.pos hm hflag
  refine ⟨m, hm, hflag, hpos, fun n mv hn hr => ?_⟩
  obtain ⟨c, hc⟩ := hcolumns.queue.chained.chain id
  exact absurd (hc.uid_nonpos (hc.mem hn hr) hm) (by omega)

theorem deletes_beside_moves_claimed : ∃ s : State, (s.claims.lookup 7).isSome = true ∧ MoveQueue.PlaceholdersResolve s.queue.db := by
  have htrace : (system.exec (fun s l => prompt s l = true) trashed
      [.request { folder := some "Trash" } false 7, .lookup 0 1 mailbox, .claim 0 3]).any
      (fun s => (s.claims.lookup 7).isSome) = true := by
    decide
  obtain ⟨s, hs, hp⟩ := TransitionSystem.reaches_of_exec trashed_initial htrace
  exact ⟨s, hp, (deletes_beside_moves hs).1⟩

end MailExpert.Expunge
