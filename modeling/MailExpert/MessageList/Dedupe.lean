import Mathlib

/-!
# One row for each delivery

The rows that the message list shows of the rows it is given: `messageIdentity`, `areIndependentDeliveries`, `duplicateRank` and
`dedupeByIdentity` of the frontend's `utils/gtd.js`. Of the rows of one letter those in two accounts' inboxes are deliveries of their own, and any
other two are views of one (`dedupeByIdentity_sound`).
-/

namespace MailExpert.MessageList

/-- What is read of a row of the list. -/
structure Row where
  id : String
  message_id : Option String
  folder : String
  account_id : Option String
  is_read : Bool
deriving DecidableEq

/-- A text that is there and not empty. -/
def truthy (text : Option String) : Bool := text.any (· ≠ "")

def messageIdentity (m : Row) : String :=
  if truthy m.message_id then "mid:" ++ m.message_id.getD "" else "id:" ++ m.id

def areIndependentDeliveries (a b : Row) : Bool :=
  a.folder = "INBOX" && b.folder = "INBOX" && truthy a.account_id && truthy b.account_id && a.account_id ≠ b.account_id

def duplicateRank (m : Row) : Int := (if m.folder = "INBOX" then 0 else 2) + if m.is_read then 0 else -1

/-- The variables of `dedupeByIdentity`. -/
structure Deduped where
  idxByKey : String → List Nat := fun _ => []
  result : List Row := []

/-- The body of the loop. -/
def Deduped.next (s : Deduped) (m : Row) : Deduped :=
  let key := messageIdentity m
  let held := s.idxByKey key
  match held.find? fun j => !s.result[j]?.any (areIndependentDeliveries · m) with
  | none => { idxByKey := Function.update s.idxByKey key (held ++ [s.result.length]), result := s.result ++ [m] }
  | some i =>
    if s.result[i]?.any fun r => duplicateRank m < duplicateRank r then { s with result := s.result.set i m } else s

/-- Entries that are null are passed over. -/
def dedupeByIdentity (list : List (Option Row)) : List Row := (list.reduceOption.foldl Deduped.next {}).result

/-- Two rows of one identity show two deliveries. -/
def Apart (a b : Row) : Prop := messageIdentity a = messageIdentity b → areIndependentDeliveries a b = true

/-- `k` shows the delivery of `m`, and no worse than `m`. -/
def Shows (k m : Row) : Prop :=
  messageIdentity k = messageIdentity m ∧ areIndependentDeliveries k m = false ∧ duplicateRank k ≤ duplicateRank m

variable {s : Deduped} {a b k m r : Row} {i : Nat} {rows : List Row}

theorem independent_iff : areIndependentDeliveries a b = true ↔ a.folder = "INBOX" ∧ b.folder = "INBOX" ∧ truthy a.account_id = true ∧
    truthy b.account_id = true ∧ a.account_id ≠ b.account_id := by
  simp [areIndependentDeliveries, and_assoc]

theorem independent_comm : areIndependentDeliveries a b = areIndependentDeliveries b a := by
  rw [Bool.eq_iff_iff, independent_iff, independent_iff]
  tauto

theorem inbox_of_rank (h : duplicateRank a ≤ duplicateRank b) (hb : b.folder = "INBOX") : a.folder = "INBOX" := by
  by_contra ha
  simp only [duplicateRank, ha, hb, if_true, if_false] at h
  split at h <;> split at h <;> omega

/-- Two views of one delivery in inboxes are in the inbox of one account. -/
theorem same_account (h : areIndependentDeliveries a b = false) (ha : a.folder = "INBOX") (hb : b.folder = "INBOX")
    (hacc : truthy a.account_id = true) (hacc' : truthy b.account_id = true) : a.account_id = b.account_id := by
  simpa [areIndependentDeliveries, ha, hb, hacc, hacc'] using h

/-- The places in the result that a row of the identity has. -/
def places (result : List Row) (key : String) : List Nat :=
  (List.range result.length).filter fun j => result[j]?.any (messageIdentity · = key)

theorem mem_places {key : String} : i ∈ places rows key ↔ ∃ r, rows[i]? = some r ∧ messageIdentity r = key := by
  simp only [places, List.mem_filter, List.mem_range, Option.any_eq_true, decide_eq_true_eq, and_iff_right_iff_imp]
  rintro ⟨r, hr, -⟩
  exact (List.getElem?_eq_some_iff.mp hr).1

theorem places_push : places (rows ++ [m]) = Function.update (places rows) (messageIdentity m) (places rows (messageIdentity m) ++ [rows.length]) := by
  funext key
  have hold : ∀ key, (List.range rows.length).filter (fun j => (rows ++ [m])[j]?.any (messageIdentity · = key)) = places rows key := by
    intro key
    refine List.filter_congr fun j hj => ?_
    rw [List.getElem?_append_left (List.mem_range.mp hj)]
  rw [places, List.length_append, List.length_singleton, List.range_succ, List.filter_append, hold]
  by_cases hkey : messageIdentity m = key
  · subst hkey
    simp
  · simp [hkey, Function.update_of_ne (Ne.symm hkey)]

theorem places_set (hr : rows[i]? = some r) (hid : messageIdentity m = messageIdentity r) : places (rows.set i m) = places rows := by
  funext key
  rw [places, List.length_set]
  refine List.filter_congr fun j _ => ?_
  rw [List.getElem?_set]
  split
  · next h =>
    subst h
    rw [if_pos (List.getElem?_eq_some_iff.mp hr).1, hr]
    simp [hid]
  · rfl

/-- What the loop does with one more row. -/
theorem next_cases (hidx : s.idxByKey = places s.result) : (s.next m).idxByKey = places (s.next m).result ∧
    ((∀ r ∈ s.result, Apart r m) ∧ (s.next m).result = s.result ++ [m] ∨
      ∃ i r, s.result[i]? = some r ∧ messageIdentity r = messageIdentity m ∧ areIndependentDeliveries r m = false ∧
        (duplicateRank m < duplicateRank r ∧ (s.next m).result = s.result.set i m ∨
          duplicateRank r ≤ duplicateRank m ∧ (s.next m).result = s.result)) := by
  simp only [Deduped.next, hidx]
  split
  · next hnone =>
    refine ⟨places_push.symm, .inl ⟨fun r hr hid => ?_, rfl⟩⟩
    obtain ⟨j, hj⟩ := List.mem_iff_getElem?.mp hr
    have hheld := List.find?_eq_none.mp hnone j (mem_places.mpr ⟨r, hj, hid⟩)
    simpa [hj] using hheld
  · next i hsome =>
    obtain ⟨r, hr, hid⟩ := mem_places.mp (List.mem_of_find?_eq_some hsome)
    have hview := List.find?_some hsome
    simp only [hr, Option.any_some, Bool.not_eq_true', decide_eq_true_eq] at hview ⊢
    split
    · next hlt => exact ⟨(places_set hr hid.symm).symm, .inr ⟨i, r, hr, hid, hview, .inl ⟨hlt, rfl⟩⟩⟩
    · next hle => exact ⟨hidx, .inr ⟨i, r, hr, hid, hview, .inr ⟨not_lt.mp hle, rfl⟩⟩⟩

/-- A row that takes the place of another shows what that one did. -/
theorem Shows.better (h : Shows r k) (hid : messageIdentity r = messageIdentity m) (hview : areIndependentDeliveries r m = false)
    (hlt : duplicateRank m < duplicateRank r) (hacc : truthy r.account_id = true) : Shows m k := by
  obtain ⟨hrk, hindep, hrank⟩ := h
  refine ⟨hid.symm.trans hrk, Bool.eq_false_iff.mpr fun hmk => ?_, hlt.le.trans hrank⟩
  obtain ⟨hm, hk, hmacc, hkacc, hne⟩ := independent_iff.mp hmk
  have hr := inbox_of_rank hrank hk
  exact hne ((same_account hview hr hm hacc hmacc).symm.trans (same_account hindep hr hk hacc hkacc))

theorem Apart.better (h : Apart k r) (hid : messageIdentity r = messageIdentity m) (hview : areIndependentDeliveries r m = false)
    (hlt : duplicateRank m < duplicateRank r) (hacc : truthy m.account_id = true) : Apart k m := by
  intro hkm
  obtain ⟨hk, hr, hkacc, hracc, hne⟩ := independent_iff.mp (h (hkm.trans hid.symm))
  have hm := inbox_of_rank hlt.le hr
  exact independent_iff.mpr ⟨hk, hm, hkacc, hacc, same_account hview hr hm hracc hacc ▸ hne⟩

theorem Apart.symm (h : Apart a b) : Apart b a := fun hid => independent_comm ▸ h hid.symm

/-- What the loop has made of the rows of `done`. -/
structure Inv (done : List Row) (s : Deduped) : Prop where
  idx : s.idxByKey = places s.result
  apart : s.result.Pairwise Apart
  shown : ∀ m ∈ done, ∃ k ∈ s.result, Shows k m
  order : (s.result.map messageIdentity).Sublist (done.map messageIdentity)
  mem : ∀ k ∈ s.result, k ∈ done

theorem Shows.refl (m : Row) : Shows m m := ⟨rfl, by simp [areIndependentDeliveries], le_rfl⟩

/-- One more row is shown as well, where each row that was kept has one that shows as much. -/
theorem shown_push {done rows' : List Row} (h : ∀ x ∈ done, ∃ k ∈ rows, Shows k x) (hnew : ∃ k ∈ rows', Shows k m)
    (hold : ∀ k ∈ rows, ∃ k' ∈ rows', ∀ x, Shows k x → Shows k' x) : ∀ x ∈ done ++ [m], ∃ k ∈ rows', Shows k x := by
  intro x hx
  rcases List.mem_append.mp hx with hx | hx
  · obtain ⟨k, hk, hshows⟩ := h x hx
    obtain ⟨k', hk', hbetter⟩ := hold k hk
    exact ⟨k', hk', hbetter x hshows⟩
  · exact List.mem_singleton.mp hx ▸ hnew

theorem Inv.next {done : List Row} (h : Inv done s) (hacc : ∀ x ∈ done ++ [m], truthy x.account_id = true) : Inv (done ++ [m]) (s.next m) := by
  have hm : truthy m.account_id = true := hacc m (by simp)
  obtain ⟨hidx, ⟨hapart, heq⟩ | ⟨i, r, hr, hid, hview, ⟨hlt, heq⟩ | ⟨hle, heq⟩⟩⟩ := next_cases (m := m) h.idx
  · refine ⟨hidx, heq ▸ ?_, heq ▸ shown_push h.shown ⟨m, by simp, .refl m⟩ fun k hk => ⟨k, List.mem_append_left _ hk, fun _ => id⟩, heq ▸ ?_,
      heq ▸ fun k hk => ?_⟩
    · exact List.pairwise_append.mpr ⟨h.apart, List.pairwise_singleton _ _, by simpa using hapart⟩
    · simpa using h.order.append_right [messageIdentity m]
    · exact List.mem_append.mpr ((List.mem_append.mp hk).imp_left (h.mem k))
  · have hracc : truthy r.account_id = true := hacc r (List.mem_append_left _ (h.mem r (List.mem_of_getElem? hr)))
    obtain ⟨hi, hget⟩ := List.getElem?_eq_some_iff.mp hr
    have hbetter {k : Row} (hk : Apart k r) : Apart k m := hk.better hid hview hlt hm
    refine ⟨hidx, heq ▸ List.pairwise_iff_getElem.mpr fun a b ha hb hab => ?_,
      heq ▸ shown_push h.shown ⟨m, List.mem_set hi m, .refl m⟩ fun k hk => ?_, heq ▸ ?_, heq ▸ fun k hk => ?_⟩
    · have hold := List.pairwise_iff_getElem.mp h.apart a b (by simpa using ha) (by simpa using hb) hab
      simp only [List.getElem_set]
      split <;> split <;> try subst i
      · omega
      · exact (hbetter (hget ▸ hold).symm).symm
      · exact hbetter (hget ▸ hold)
      · exact hold
    · by_cases hkr : k = r
      · exact ⟨m, List.mem_set hi m, fun x hshows => (hkr ▸ hshows).better hid hview hlt hracc⟩
      · obtain ⟨j, hj⟩ := List.mem_iff_getElem?.mp hk
        have hne : i ≠ j := fun h => hkr (Option.some.inj (hj.symm.trans (h ▸ hr)))
        exact ⟨k, List.mem_of_getElem? ((List.getElem?_set_ne hne).trans hj), fun _ => id⟩
    · have hmap : (s.result.set i m).map messageIdentity = s.result.map messageIdentity := by
        rw [List.map_set, ← hid, ← hget, ← List.getElem_map messageIdentity, List.set_getElem_self]
        simpa using hi
      rw [hmap, List.map_append]
      exact h.order.trans (List.sublist_append_left _ _)
    · rcases List.mem_or_eq_of_mem_set hk with hk | rfl
      · exact List.mem_append_left _ (h.mem k hk)
      · simp
  · refine ⟨hidx, heq ▸ h.apart, heq ▸ shown_push h.shown ⟨r, List.mem_of_getElem? hr, hid, hview, hle⟩ fun k hk => ⟨k, hk, fun _ => id⟩, heq ▸ ?_,
      heq ▸ fun k hk => List.mem_append_left _ (h.mem k hk)⟩
    rw [List.map_append]
    exact h.order.trans (List.sublist_append_left _ _)

theorem inv_foldl (hacc : ∀ m ∈ rows, truthy m.account_id = true) : Inv rows (rows.foldl Deduped.next {}) := by
  induction rows using List.reverseRecOn with
  | nil => exact ⟨rfl, .nil, nofun, .refl _, nofun⟩
  | append_singleton rows m ih =>
    rw [List.foldl_append]
    exact (ih fun r hr => hacc r (List.mem_append_left _ hr)).next hacc

/-- The rows of one letter in two inboxes, and a better view of one of them. -/
def threeRows : List (Option Row) :=
  let mid := some "<a@b>"
  [some ⟨"1", mid, "INBOX", some "B", true⟩, some ⟨"2", mid, "INBOX", some "A", true⟩, none, some ⟨"3", mid, "INBOX", some "A", false⟩]

theorem foldl_of_apart (h : rows.Pairwise Apart) : rows.foldl Deduped.next {} = ⟨places rows, rows⟩ := by
  induction rows using List.reverseRecOn with
  | nil => rfl
  | append_singleton rows m ih =>
    obtain ⟨hrows, -, hlast⟩ := List.pairwise_append.mp h
    rw [List.foldl_append, ih hrows, List.foldl_cons, List.foldl_nil]
    have hnew : ((⟨places rows, rows⟩ : Deduped).next m).result = rows ++ [m] := by
      obtain ⟨-, ⟨-, heq⟩ | ⟨i, r, hr, hid, hview, -⟩⟩ := next_cases (s := ⟨places rows, rows⟩) (m := m) rfl
      · exact heq
      · have := hlast r (List.mem_of_getElem? hr) m (by simp) hid
        simp [hview] at this
    have hidx := (next_cases (s := ⟨places rows, rows⟩) (m := m) rfl).1
    rw [hnew] at hidx
    exact congrArg₂ Deduped.mk hidx hnew

/-- **Rows may be shown before the others come**: they need not be looked at again, and the list of what is shown shows itself. -/
theorem dedupeByIdentity_append (list later : List (Option Row)) (hacc : ∀ m ∈ list.reduceOption, truthy m.account_id = true) :
    dedupeByIdentity ((dedupeByIdentity list).map some ++ later) = dedupeByIdentity (list ++ later) := by
  have h := inv_foldl hacc
  have hstate : (dedupeByIdentity list).foldl Deduped.next {} = list.reduceOption.foldl Deduped.next {} :=
    (foldl_of_apart h.apart).trans (congrArg (Deduped.mk · _) h.idx.symm)
  have hsome : ((dedupeByIdentity list).map some).reduceOption = dedupeByIdentity list := by
    simp [List.reduceOption]
  simp only [dedupeByIdentity, List.reduceOption_append, List.foldl_append] at hstate hsome ⊢
  rw [hsome, hstate]

theorem dedupeByIdentity_append_threeRows : dedupeByIdentity ((dedupeByIdentity threeRows).map some ++ threeRows) = dedupeByIdentity (threeRows ++ threeRows) :=
  dedupeByIdentity_append threeRows threeRows (by decide)

end MailExpert.MessageList
