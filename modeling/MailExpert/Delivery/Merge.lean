import MailExpert.Delivery.Outcomes
import MailExpert.Lib.Folds

/-!
# Outcomes in any order

A row keeps of each source the latest outcome, with the TLS and the acceptance that any reading of it showed (`Latest`), and shows what
follows from the three. So the row depends on the outcomes that were merged alone.
-/

namespace MailExpert.Delivery

variable {δ : Type} {row row' : Row δ} {o o' : Outcome δ} {own own' k k' : Own δ} {source : Source} {S T : Set (Own δ)}
  {outcomes : Set (Outcome δ)} {l l' : List (Outcome δ)}

/-- The outcome without what a later read of the log may no longer show. -/
def Own.bare (own : Own δ) : Own δ := { own with tls := none, acceptance := none }

/-- Two outcomes of one time are one outcome, which may show its TLS and its acceptance or not. -/
structure Own.Agrees (own own' : Own δ) : Prop where
  timed : own.at_.isSome = true
  bare : own.at_ = own'.at_ → own.bare = own'.bare
  tls : own.at_ = own'.at_ → ∀ x y, own.tls = some x → own'.tls = some y → x = y
  acceptance : own.at_ = own'.at_ → ∀ x y, own.acceptance = some x → own'.acceptance = some y → x = y

/-- The outcomes of one source have times, and different ones have different times. -/
def Consistent (outcomes : Set (Outcome δ)) : Prop :=
  ∀ o ∈ outcomes, ∀ o' ∈ outcomes, o.source = o'.source → o.own.Agrees o'.own

/-- What a row keeps of the outcomes of one source. -/
structure Latest (S : Set (Own δ)) (k : Own δ) : Prop where
  bare : ∃ own ∈ S, own.bare = k.bare
  last : ∀ own ∈ S, notBefore k.at_ own.at_ 0 = true
  tls : ∀ x, k.tls = some x ↔ ∃ own ∈ S, own.at_ = k.at_ ∧ own.tls = some x
  acceptance : ∀ x, k.acceptance = some x ↔ ∃ own ∈ S, own.at_ = k.at_ ∧ own.acceptance = some x

theorem bare_at (h : own.bare = own'.bare) : own.at_ = own'.at_ := by
  change own.bare.at_ = own'.bare.at_
  rw [h]

theorem eq_of_bare (h : k.bare = k'.bare) (htls : k.tls = k'.tls) (hacceptance : k.acceptance = k'.acceptance) : k = k' := by
  cases k
  cases k'
  simp_all [Own.bare]

theorem notBefore_antisymm {a b : Option Int} (h : notBefore a b 0 = true) (h' : notBefore b a 0 = true) : a = b := by
  cases a <;> cases b <;> simp_all [notBefore]
  omega

theorem notBefore_trans {a b c : Option Int} (h : notBefore a b 0 = true) (h' : notBefore b c 0 = true) : notBefore a c 0 = true := by
  cases a <;> cases b <;> cases c <;> simp_all [notBefore]
  omega

theorem notBefore_total {a b : Option Int} (h : notBefore a b 0 = false) : notBefore b a 0 = true := by
  cases a <;> cases b <;> simp_all [notBefore]
  omega

theorem notBefore_refl {a : Option Int} : notBefore a a 0 = true := by cases a <;> simp [notBefore]

theorem Latest.unique (hagrees : ∀ own ∈ S, ∀ own' ∈ S, own.Agrees own') (h : Latest S k) (h' : Latest S k') : k = k' := by
  obtain ⟨own, hown, hbare⟩ := h.bare
  obtain ⟨own', hown', hbare'⟩ := h'.bare
  have hat : k.at_ = k'.at_ := by
    refine notBefore_antisymm ?_ ?_
    · exact bare_at hbare' ▸ h.last own' hown'
    · exact bare_at hbare ▸ h'.last own hown
  refine eq_of_bare ?_ (Option.ext fun x => ?_) (Option.ext fun x => ?_)
  · exact hbare.symm.trans (((hagrees own hown own' hown').bare ((bare_at hbare).trans (hat.trans (bare_at hbare').symm))).trans hbare')
  · rw [h.tls, h'.tls, hat]
  · rw [h.acceptance, h'.acceptance, hat]

theorem Latest.singleton : Latest {own} own :=
  ⟨⟨own, rfl, rfl⟩, fun _ h => h ▸ notBefore_refl, fun x => by simp, fun x => by simp⟩

theorem Latest.older (h : Latest S k) (hbefore : notBefore own.at_ k.at_ 0 = false) : Latest (insert own S) k := by
  have hne : own.at_ ≠ k.at_ := by
    intro heq
    rw [heq, notBefore_refl] at hbefore
    cases hbefore
  obtain ⟨o, ho, hbare⟩ := h.bare
  refine ⟨⟨o, .inr ho, hbare⟩, ?_, fun x => ?_, fun x => ?_⟩
  · rintro o (rfl | ho)
    · exact notBefore_total hbefore
    · exact h.last o ho
  · rw [h.tls]
    simp [hne]
  · rw [h.acceptance]
    simp [hne]

/-- A later outcome takes the place of the others. -/
theorem Latest.newer (h : Latest S k) (hbefore : notBefore own.at_ k.at_ 0 = true) (hne : own.at_ ≠ k.at_) : Latest (insert own S) own := by
  have hearlier : ∀ o ∈ S, o.at_ ≠ own.at_ := by
    intro o ho heq
    exact hne (notBefore_antisymm hbefore (heq ▸ h.last o ho))
  refine ⟨⟨own, .inl rfl, rfl⟩, ?_, fun x => ?_, fun x => ?_⟩
  · rintro o (rfl | ho)
    · exact notBefore_refl
    · exact notBefore_trans hbefore (h.last o ho)
  · refine ⟨fun hx => ⟨own, .inl rfl, rfl, hx⟩, ?_⟩
    rintro ⟨o, rfl | ho, heq, hx⟩
    · exact hx
    · exact absurd heq (hearlier o ho)
  · refine ⟨fun hx => ⟨own, .inl rfl, rfl, hx⟩, ?_⟩
    rintro ⟨o, rfl | ho, heq, hx⟩
    · exact hx
    · exact absurd heq (hearlier o ho)

/-- What two readings of one line show together. -/
theorem orElse_iff {τ : Type} {P : Own δ → Option τ} (hk : ∀ x, P k = some x ↔ ∃ o ∈ S, o.at_ = k.at_ ∧ P o = some x)
    (hat : k.at_ = own.at_) (hagrees : ∀ x y, P own = some x → ∀ o ∈ S, o.at_ = own.at_ → P o = some y → x = y) (x : τ) :
    (P own <|> P k) = some x ↔ ∃ o ∈ insert own S, o.at_ = own.at_ ∧ P o = some x := by
  cases hown : P own with
  | none =>
    change P k = some x ↔ _
    rw [hk, hat]
    simp [hown]
  | some y =>
    change some y = some x ↔ _
    refine ⟨fun h => ⟨own, .inl rfl, rfl, hown.trans h⟩, ?_⟩
    rintro ⟨o, rfl | ho, heq, hx⟩
    · exact hown.symm.trans hx
    · exact congrArg some (hagrees y x hown o ho heq hx)

theorem Latest.repeated (h : Latest S k) (hat : k.at_ = own.at_) (hagrees : ∀ o ∈ S, own.Agrees o) :
    Latest (insert own S) (again k own) := by
  obtain ⟨o, ho, hbare⟩ := h.bare
  have hat' : o.at_ = own.at_ := (bare_at hbare).trans hat
  have htimed : own.at_.isSome = true := (hagrees o ho).timed
  have hagain : Delivery.again k own = { own with tls := own.tls <|> k.tls, acceptance := own.acceptance <|> k.acceptance } := by
    rw [Delivery.again, hat]
    simp [htimed]
  rw [hagain]
  refine ⟨⟨own, .inl rfl, rfl⟩, ?_, ?_, ?_⟩
  · rintro o (rfl | ho)
    · exact notBefore_refl
    · exact hat ▸ h.last o ho
  · exact orElse_iff h.tls hat fun x y hx o ho heq hy => (hagrees o ho).tls heq.symm x y hx hy
  · exact orElse_iff h.acceptance hat fun x y hx o ho heq hy => (hagrees o ho).acceptance heq.symm x y hx hy

/-! ## The row -/

def ofSource (outcomes : Set (Outcome δ)) (source : Source) : Set (Own δ) := { own | ⟨source, own⟩ ∈ outcomes }

/-- What is kept of the outcomes of a source, none where there is no outcome. -/
def Kept (S : Set (Own δ)) : Option (Own δ) → Prop
  | none => S = ∅
  | some k => Latest S k

structure Shows (outcomes : Set (Outcome δ)) (row : Option (Row δ)) : Prop where
  kept : ∀ source, Kept (ofSource outcomes source) (row.bind (·.kept source))
  row : row = rowOf (row.bind (·.log)) (row.bind (·.report)) (row.bind (·.submission))

theorem Consistent.agrees (h : Consistent outcomes) : ∀ own ∈ ofSource outcomes source, ∀ own' ∈ ofSource outcomes source,
    own.Agrees own' := fun _ hown _ hown' => h _ hown _ hown' rfl

theorem Kept.unique {a b : Option (Own δ)} (hagrees : ∀ own ∈ S, ∀ own' ∈ S, own.Agrees own') (h : Kept S a) (h' : Kept S b) : a = b := by
  cases a with
  | none =>
    cases b with
    | none => rfl
    | some k =>
      obtain ⟨own, hown, -⟩ := h'.bare
      exact absurd (h ▸ hown) (Set.notMem_empty own)
  | some k =>
    cases b with
    | none =>
      obtain ⟨own, hown, -⟩ := h.bare
      exact absurd (h' ▸ hown) (Set.notMem_empty own)
    | some k' => exact congrArg some (Latest.unique hagrees h h')

theorem Shows.unique {a b : Option (Row δ)} (hgood : Consistent outcomes) (h : Shows outcomes a) (h' : Shows outcomes b) : a = b := by
  have hkept (source : Source) : a.bind (·.kept source) = b.bind (·.kept source) := (h.kept source).unique hgood.agrees (h'.kept source)
  have hlog : a.bind (·.log) = b.bind (·.log) := hkept .log
  have hreport : a.bind (·.report) = b.bind (·.report) := hkept .dsn
  have hsubmission : a.bind (·.submission) = b.bind (·.submission) := hkept .submission
  rw [h.row, h'.row, hlog, hreport, hsubmission]

/-- The row shows what it is made of. -/
theorem rowOf_kept (log report submission : Option (Own δ)) : (rowOf log report submission).bind (·.log) = log ∧
    (rowOf log report submission).bind (·.report) = report ∧ (rowOf log report submission).bind (·.submission) = submission := by
  have hsome : (rowOf log report submission).isSome = true ∨ log = none ∧ report = none ∧ submission = none := by
    unfold rowOf winnerOf
    cases submission with
    | some _ => exact .inl rfl
    | none =>
      cases log with
      | none => cases report <;> simp
      | some log =>
        cases report with
        | none => exact .inl rfl
        | some report =>
          left
          dsimp only
          split_ifs <;> rfl
  rcases hsome with hsome | ⟨rfl, rfl, rfl⟩
  · obtain ⟨row, hrow⟩ := Option.isSome_iff_exists.mp hsome
    rw [hrow]
    obtain ⟨won, -, rfl⟩ := Option.map_eq_some_iff.mp hrow
    exact ⟨rfl, rfl, rfl⟩
  · exact ⟨rfl, rfl, rfl⟩

/-- What is kept of a source after one more of its outcomes. -/
def slot (source : Source) (before : Option (Own δ)) (own : Own δ) : Own δ :=
  match before with
  | none => own
  | some before => if older source before own then before else again before own

theorem older_eq (htimed : own.at_.isSome = true) (htimed' : k.at_.isSome = true) : older source k own = !notBefore own.at_ k.at_ 0 := by
  cases source <;> simp [older, htimed, htimed']

theorem Kept.slot {before : Option (Own δ)} (hagrees : ∀ o ∈ insert own S, ∀ o' ∈ insert own S, o.Agrees o') (h : Kept S before) :
    Kept (insert own S) (some (slot source before own)) := by
  cases before with
  | none =>
    obtain rfl : S = ∅ := h
    rw [insert_empty_eq]
    exact Latest.singleton
  | some k =>
    have hk : Latest S k := h
    obtain ⟨o, ho, hbare⟩ := hk.bare
    have htimed : own.at_.isSome = true := (hagrees own (.inl rfl) own (.inl rfl)).timed
    have htimed' : k.at_.isSome = true := bare_at hbare ▸ (hagrees o (.inr ho) own (.inl rfl)).timed
    change Latest _ (if older source k own then k else Delivery.again k own)
    rw [older_eq htimed htimed']
    cases hbefore : notBefore own.at_ k.at_ 0 with
    | false => exact hk.older hbefore
    | true =>
      by_cases hat : k.at_ = own.at_
      · exact hk.repeated hat fun o ho => hagrees own (.inl rfl) o (.inr ho)
      · have hown : Delivery.again k own = own := if_neg (by simp [hat])
        rw [Bool.not_true, if_neg Bool.false_ne_true, hown]
        exact hk.newer hbefore (Ne.symm hat)

theorem ofSource_insert : ofSource (insert o outcomes) o.source = insert o.own (ofSource outcomes o.source) := by
  ext own
  refine or_congr_left ⟨fun h => ?_, fun h => ?_⟩
  · rw [← h]
  · rw [h]

theorem ofSource_insert_ne (h : source ≠ o.source) : ofSource (insert o outcomes) source = ofSource outcomes source := by
  ext own
  exact or_iff_right fun heq => h (congrArg Outcome.source heq)

variable [DecidableEq δ]

theorem mergeOutcome_kept (row : Option (Row δ)) (source : Source) : (mergeOutcome row o).1.bind (·.kept source) =
    if source = o.source then some (slot source (row.bind (·.kept source)) o.own) else row.bind (·.kept source) := by
  unfold mergeOutcome
  dsimp only
  split
  next hsame =>
    split
    next heq =>
      subst heq
      obtain ⟨before, hbefore, hsame⟩ := (Option.any_eq_true _ _).mp hsame
      rw [hbefore]
      change some before = some (if older o.source before o.own then before else again before o.own)
      cases holder : older o.source before o.own with
      | true => rfl
      | false =>
        have hagain : before = again before o.own := by simpa [holder, hbefore] using hsame
        exact congrArg some hagain
    next => rfl
  next hchanged =>
    obtain ⟨hlog, hreport, hsubmission⟩ := rowOf_kept (if Source.log = o.source then some
      (((row.bind (·.kept o.source)).map (again · o.own)).getD o.own) else row.bind (·.kept .log)) (if Source.dsn = o.source then some
      (((row.bind (·.kept o.source)).map (again · o.own)).getD o.own) else row.bind (·.kept .dsn)) (if Source.submission = o.source then some
      (((row.bind (·.kept o.source)).map (again · o.own)).getD o.own) else row.bind (·.kept .submission))
    have hslot : ((row.bind (·.kept o.source)).map (again · o.own)).getD o.own = slot o.source (row.bind (·.kept o.source)) o.own := by
      cases hbefore : row.bind (·.kept o.source) with
      | none => rfl
      | some before =>
        have holder : older o.source before o.own = false := by
          rw [hbefore] at hchanged
          simp only [Option.any_some, Bool.or_eq_true, not_or, Bool.not_eq_true] at hchanged
          exact hchanged.1
        simp [slot, holder]
    cases source with
    | log => exact hlog.trans (by split <;> simp_all)
    | dsn => exact hreport.trans (by split <;> simp_all)
    | submission => exact hsubmission.trans (by split <;> simp_all)

theorem Shows.merge {row : Option (Row δ)} (hgood : Consistent (insert o outcomes)) (h : Shows outcomes row) :
    Shows (insert o outcomes) (mergeOutcome row o).1 := by
  refine ⟨fun source => ?_, ?_⟩
  · rw [mergeOutcome_kept]
    split
    next heq =>
      subst heq
      rw [ofSource_insert]
      exact (h.kept o.source).slot (ofSource_insert ▸ hgood.agrees)
    next hne =>
      rw [ofSource_insert_ne hne]
      exact h.kept source
  · unfold mergeOutcome
    dsimp only
    split
    · exact h.row
    · obtain ⟨hlog, hreport, hsubmission⟩ := rowOf_kept (δ := δ) _ _ _
      rw [hlog, hreport, hsubmission]

def mergeAll (l : List (Outcome δ)) : Option (Row δ) := l.foldl (fun row o => (mergeOutcome row o).1) none

theorem describes : Folds.Describes (fun (row : Option (Row δ)) o => (mergeOutcome row o).1) none Consistent Shows where
  mono h hsub o ho o' ho' := h o (hsub ho) o' (hsub ho')
  init := ⟨fun _ => rfl, rfl⟩
  step hgood h := h.merge hgood
  unique hgood h h' := h.unique hgood h'

/-- An outcome that leaves the row changes nothing. -/
theorem changed_eq_false {row : Option (Row δ)} (hk : row.bind (·.kept o.source) ≠ none) (h : (mergeOutcome row o).1 = row) :
    (mergeOutcome row o).2 = false := by
  obtain ⟨before, hbefore⟩ := Option.ne_none_iff_exists'.mp hk
  have hslot : some (slot o.source (some before) o.own) = some before := by
    have hkept := mergeOutcome_kept (o := o) row o.source
    rwa [h, hbefore, if_pos rfl, eq_comm] at hkept
  have hsame : (row.bind (·.kept o.source)).any (fun before => older o.source before o.own ||
      before = ((row.bind (·.kept o.source)).map (again · o.own)).getD o.own) = true := by
    rw [hbefore]
    cases holder : older o.source before o.own with
    | true => simp [holder]
    | false =>
      have hagain : again before o.own = before := by simpa [slot, holder] using hslot
      simp [hagain]
  unfold mergeOutcome
  dsimp only
  rw [if_pos hsame]

/-- **Outcomes merge in any order**, with any repetitions, and none of them would change the row that they make. -/
theorem merge_any_order (hgood : Consistent { o | o ∈ l }) (hsame : ∀ o, o ∈ l ↔ o ∈ l') : mergeAll l = mergeAll l' ∧
    ∀ o ∈ l, ∀ (normalize : String → String) existing recipient, existing.lookup (normalize recipient) = mergeAll l →
      wouldChange normalize existing o.source [(recipient, o.own)] = false := by
  refine ⟨describes.foldl_eq hgood hsame, fun o ho normalize existing recipient hlookup => ?_⟩
  have habsorbs : (mergeOutcome (mergeAll l) o).1 = mergeAll l := describes.absorbs hgood ho
  have hshows : Shows { o | o ∈ l } (mergeAll l) := describes.foldl hgood
  have hk : (mergeAll l).bind (·.kept o.source) ≠ none := by
    intro hnone
    have hkept := hshows.kept o.source
    rw [hnone] at hkept
    have hmem : o.own ∈ ofSource { o | o ∈ l } o.source := ho
    rw [show ofSource { o | o ∈ l } o.source = ∅ from hkept] at hmem
    exact hmem
  have hunchanged := changed_eq_false hk habsorbs
  unfold wouldChange
  rw [List.any_cons, List.any_nil, Bool.or_false]
  dsimp only
  rw [hlookup, hunchanged, Bool.and_false]

def deferred : Outcome Unit where
  source := .log
  own := { state := .deferred, at_ := some 0, statusCode := some "4.7.500", diagnostic := none, rest := () }

def sent : Outcome Unit where
  source := .log
  own := { state := .sent, at_ := some 600000, statusCode := some "2.6.0", diagnostic := none, rest := () }

def sentSecurely : Outcome Unit where
  source := .log
  own := { sent.own with tls := some { level := "verified", protocol := "TLSv1.3", cipher := "x", bits := 256, matchedBy := "pid" } }

def reported : Outcome Unit where
  source := .dsn
  own := { state := .failed, at_ := some 300000, statusCode := some "5.7.64", diagnostic := none, rest := () }

theorem merge_any_order_reported :
    mergeAll [deferred, sentSecurely, reported, sent] = mergeAll [sent, reported, deferred, sentSecurely, sent] := by
  have hgood : Consistent { o | o ∈ [deferred, sentSecurely, reported, sent] } := by
    intro o ho o' ho' hsource
    simp only [Set.mem_ofPred_eq, List.mem_cons, List.not_mem_nil, or_false] at ho ho'
    rcases ho with rfl | rfl | rfl | rfl <;> rcases ho' with rfl | rfl | rfl | rfl <;>
      first | exact absurd hsource (by decide) | exact ⟨rfl, by simp [deferred, sent, sentSecurely, reported, Own.bare],
        by simp [deferred, sent, sentSecurely, reported], by simp [deferred, sent, sentSecurely, reported]⟩
  refine (merge_any_order hgood fun o => ?_).1
  simp only [List.mem_cons, List.not_mem_nil, or_false]
  tauto

end MailExpert.Delivery
