import MailExpert.Sanitizer.Patterns

/-!
# Addresses in CSS

`stripExternalCssUrls`. The closing bracket and the last character before it that is no white space are searched once for all the candidates that
reach them.
-/

namespace MailExpert.Sanitizer

open Encodings (isSpace)
open Regex Search

variable {css : Text} {i j k n : Nat}

def isQuote (c : Nat) : Bool := c = '\''.toNat || c = '"'.toNat

/-- `url\s*\(\s*(['"]?)https?:\/\/` -/
def urlHead : List (Regex Nat) :=
  [ci "url", spaces, char '(', spaces, group 1 (alt (one isQuote) empty), ci "http", alt (ci "s") empty, ci "://"]

/-- `[^)]*\1\s*\)` -/
def urlTail : List (Regex Nat) := [till ')', back fold 1, spaces, char ')']

/-- `/url\s*\(\s*(['"]?)https?:\/\//gi` -/
def urlRe : Regex Nat := seqs urlHead

/-- `/url\s*\(\s*(['"]?)https?:\/\/[^)]*\1\s*\)/gi` -/
def externalUrl : Regex Nat := seqs (urlHead ++ urlTail)

/-- The loop that steps back over white space, from before `n` and not past `valueStart`. -/
def lastNonSpaceFrom (css : Text) (valueStart : Nat) : Nat → Int
  | 0 => -1
  | n + 1 => if valueStart ≤ n ∧ (css[n]?).any isSpace then lastNonSpaceFrom css valueStart n else n

theorem fold_eq_letter {x c : Nat} (hc : 97 ≤ c ∧ c ≤ 122) (h : fold x = c) : x = c ∨ x = c - 32 := by
  rw [fold] at h
  split at h
  · omega
  · exact .inl h

theorem reaches_urlRe {s m : State} (h : Reaches css urlRe s m) :
    spelled fold css (codes "url") s.pos = true ∧ s.pos < m.pos ∧ (∀ j, s.pos < j → j < m.pos → ¬ spelled fold css (codes "url") j = true) ∧
      ∃ a b, m.caps 1 = some (a, b) ∧ (b = a ∨ b = a + 1 ∧ (css[a]?).any isQuote = true) := by
  obtain ⟨m1, h1, h2⟩ := h
  obtain ⟨hword, rfl⟩ := reaches_lit.mp h1
  have hlen : s.pos + 3 ≤ css.length := by
    obtain ⟨x, _, _, hx, -⟩ := spelled_get hword (by omega : s.pos ≤ s.pos + 2) (Nat.lt_succ_self _)
    exact (List.getElem?_eq_some_iff.mp hx).1
  have hle : s.pos + 3 ≤ m.pos := (Reaches.le h2 hlen).1
  refine ⟨hword, by omega, fun j hj1 hj2 hj => ?_, ?_⟩
  · rcases Nat.lt_or_ge j (s.pos + 3) with hlt | hge
    · exact not_spelled_inside (by decide) hword hj1 hlt hj
    · -- Behind the name there is no letter that it could begin with.
      obtain ⟨x, hx, hfold⟩ : ∃ x, css[j]? = some x ∧ fold x = 'u'.toNat := by
        have hfirst := (Bool.and_eq_true_iff.mp hj).1
        cases hx : css[j]? with
        | none =>
          rw [hx] at hfirst
          exact nomatch hfirst
        | some x =>
          rw [hx, Option.any_some, decide_eq_true_iff] at hfirst
          exact ⟨x, rfl, hfirst⟩
      rcases fold_eq_letter (by decide : 97 ≤ 'u'.toNat ∧ 'u'.toNat ≤ 122) hfold with rfl | rfl
      · exact Reaches.avoids h2 (by decide) hge hj2 hx
      · exact Reaches.avoids h2 (by decide) hge hj2 hx
  · obtain ⟨m2, -, m3, -, m4, -, m5, ⟨m5', hquote, rfl⟩, m6, hhttp, m7, hs, m8, hslash, rfl⟩ := h2
    obtain ⟨-, rfl⟩ := reaches_lit.mp hhttp
    obtain ⟨-, rfl⟩ := reaches_lit.mp hslash
    have hcaps : m7.caps 1 = some (m4.pos, m5'.pos) := by
      rcases hs with hs | rfl
      · obtain ⟨-, rfl⟩ := reaches_lit.mp hs
        exact State.caps_capture m5' 1 m4.pos
      · exact State.caps_capture m5' 1 m4.pos
    refine ⟨m4.pos, m5'.pos, hcaps, ?_⟩
    rcases hquote with ⟨hq, rfl⟩ | rfl
    · exact .inr ⟨rfl, hq⟩
    · exact .inl rfl

theorem det_urlRe : Det css urlRe := by
  have hcolon : Det css (seqs [ci "://"]) := det_lit.seq det_empty
  have hsecure : Det css (seqs [alt (ci "s") empty, ci "://"]) :=
    det_option_seq (by
      intro x hx
      rw [decide_eq_true_iff] at hx
      rw [decide_eq_false_iff_not, hx]
      decide) starts_lit det_lit starts_lit.seq hcolon
  have hhttp : Det css (seqs [ci "http", alt (ci "s") empty, ci "://"]) := det_lit.seq hsecure
  have hquote : Det css (seqs [group 1 (alt (one isQuote) empty), ci "http", alt (ci "s") empty, ci "://"]) :=
    det_group_option_seq (by
      intro x hx
      rw [decide_eq_false_iff_not]
      rcases Bool.or_eq_true_iff.mp hx with hx | hx <;> rw [of_decide_eq_true hx] <;> decide) starts_one det_one starts_lit.seq hhttp
  have hstarts : Starts css (fun x => isQuote x || decide (fold x = fold 'h'.toNat))
      (seqs [group 1 (alt (one isQuote) empty), ci "http", alt (ci "s") empty, ci "://"]) := by
    rintro s e ⟨_, ⟨m, hm, rfl⟩, hrest⟩
    rcases hm with hm | rfl
    · obtain ⟨c, hc, hq⟩ := (Option.any_eq_true _ _).mp hm.1
      rw [hc, Option.any_some, hq]
      rfl
    · have hh : (css[(m.capture 1 m.pos).pos]?).any (fun x => decide (fold x = fold 'h'.toNat)) = true := Starts.seq starts_lit hrest
      rw [State.pos_capture] at hh
      obtain ⟨c, hc, hq⟩ := (Option.any_eq_true _ _).mp hh
      rw [hc, Option.any_some, hq, Bool.or_true]
  have hspaces : Det css (seqs [spaces, group 1 (alt (one isQuote) empty), ci "http", alt (ci "s") empty, ci "://"]) :=
    det_star_seq (by
      intro x hx
      rw [Bool.or_eq_false_iff, decide_eq_false_iff_not]
      refine ⟨Bool.eq_false_iff.mpr fun hq => ?_, fun hfold => ?_⟩
      · rcases Bool.or_eq_true_iff.mp hq with hq | hq <;> rw [of_decide_eq_true hq] at hx <;> exact absurd hx (by decide)
      · rcases fold_eq_letter (by decide : 97 ≤ 'h'.toNat ∧ 'h'.toNat ≤ 122) hfold with rfl | rfl <;> exact absurd hx (by decide)) hstarts hquote
  have hparen : Det css (seqs [char '(', spaces, group 1 (alt (one isQuote) empty), ci "http", alt (ci "s") empty, ci "://"]) :=
    Det.seq det_one hspaces
  have hname : Det css (seqs [spaces, char '(', spaces, group 1 (alt (one isQuote) empty), ci "http", alt (ci "s") empty, ci "://"]) :=
    det_star_seq (by
      intro x hx
      rw [decide_eq_false_iff_not]
      rintro rfl
      exact absurd hx (by decide)) starts_one.seq hparen
  have hurl : Det css (ci "url") := det_lit
  exact hurl.seq hname

theorem exec_urlRe {m : State} (h : urlRe.exec css i = some (k, m)) :
    i ≤ k ∧ k ≤ css.length ∧ Reaches css urlRe (State.start k) m ∧ m.pos ≤ css.length ∧ ∀ j, i ≤ j → j < k → matchAt css urlRe j = none := by
  obtain ⟨h1, h2, h3, h4⟩ := first_eq_some.mp h
  obtain ⟨m', hm, heq⟩ := run_eq_some h2 h3
  cases heq
  exact ⟨h1, h2, hm, (hm.le h2).2, h4⟩

/-- Where the closing bracket is, with the last place before it that is no white space. -/
def closing (css : Text) (valueStart : Nat) (paren lastNonSpace : Int) : Option (Int × Int) :=
  if paren < valueStart then (indexOf css ')'.toNat valueStart).map fun p : Nat => ((p : Int), lastNonSpaceFrom css valueStart p) else some (paren, lastNonSpace)

theorem le_closing {valueStart : Nat} {paren last paren' last' : Int} (h : closing css valueStart paren last = some (paren', last')) :
    (valueStart : Int) ≤ paren' := by
  rw [closing] at h
  split at h
  · obtain ⟨p, hp, heq⟩ := Option.map_eq_some_iff.mp h
    cases heq
    exact_mod_cast (indexOf_eq_some.mp hp).1
  · cases h
    omega

def stripExternalCssUrls.loop (css out : Text) (pos lastIndex : Nat) (paren lastNonSpace : Int) : Text :=
  match _hm : urlRe.exec css lastIndex with
  | none => out ++ css.drop pos
  | some (i, m) =>
    match _hc : closing css m.pos paren lastNonSpace with
    | none => out ++ css.drop pos
    | some (paren, lastNonSpace) =>
      let quote := groupText css m 1
      if quote ≠ [] ∧ (lastNonSpace < m.pos ∨ (css[lastNonSpace.toNat]?).toList ≠ quote) then loop css out pos m.pos paren lastNonSpace
      else loop css (out ++ slice css pos i ++ codes "url()") (paren + 1).toNat (paren + 1).toNat paren lastNonSpace
termination_by css.length + 1 - lastIndex
decreasing_by
  all_goals
    obtain ⟨h1, h2, h3, -⟩ := exec_urlRe _hm
    have h4 : i < m.pos := (reaches_urlRe h3).2.1
  · omega
  · have h5 := le_closing _hc
    omega

def stripExternalCssUrls (css : Text) : Text := stripExternalCssUrls.loop css [] 0 0 (-1) (-1)

theorem lastNonSpaceFrom_spec {v : Nat} (hv : v ≤ n) (hn : n ≤ css.length) :
    (v : Int) - 1 ≤ lastNonSpaceFrom css v n ∧ lastNonSpaceFrom css v n < n ∧
      (∀ x : Nat, lastNonSpaceFrom css v n < x → x < n → (css[x]?).any isSpace = true) ∧
      ((v : Int) ≤ lastNonSpaceFrom css v n → ¬ (css[(lastNonSpaceFrom css v n).toNat]?).any isSpace = true) := by
  induction n with
  | zero =>
    rw [lastNonSpaceFrom]
    exact ⟨by omega, by omega, fun x _ h => absurd h (Nat.not_lt_zero x), by omega⟩
  | succ n ih =>
    rw [lastNonSpaceFrom]
    split
    · rename_i h
      obtain ⟨h1, h2, h3, h4⟩ := ih h.1 (by omega)
      refine ⟨h1, by omega, fun x hx1 hx2 => ?_, h4⟩
      rcases Nat.lt_succ_iff_lt_or_eq.mp hx2 with hx2 | rfl
      · exact h3 x hx1 hx2
      · exact h.2
    · rename_i h
      refine ⟨by omega, by omega, fun x hx1 hx2 => absurd hx2 (by omega), fun hle hspace => h ⟨by omega, ?_⟩⟩
      rwa [Int.toNat_natCast] at hspace

/-- The quote that was read closes before the bracket. -/
def Closes (css : Text) (a b from' paren : Nat) : Prop :=
  b = a ∨ ∃ l, from' ≤ l ∧ l < paren ∧ (css[l]?).map fold = (css[a]?).map fold ∧ All css isSpace (l + 1) paren

theorem slice_succ {l : Nat} (hl : l < css.length) : slice css l (l + 1) = [css[l]] := by
  rw [slice, Nat.add_sub_cancel_left, List.drop_eq_getElem_cons hl]
  rfl

theorem repeats_quote {a b : Nat} {s m : State} (hcaps : s.caps 1 = some (a, b)) (hab : b = a ∨ b = a + 1 ∧ (css[a]?).any isQuote = true)
    (hs : s.pos ≤ css.length) :
    repeats css fold 1 s = some m ↔ b = a ∧ m = s ∨ b = a + 1 ∧ s.pos < css.length ∧ (css[s.pos]?).map fold = (css[a]?).map fold ∧
      m = s.goto (s.pos + 1) := by
  rw [repeats, hcaps]
  rcases hab with rfl | ⟨rfl, hq⟩
  · have hempty (l : Nat) : slice css l l = [] := by rw [slice, Nat.sub_self, List.take_zero]
    simp only [Nat.sub_self, Nat.add_zero, hempty, hs, and_self, if_true, State.goto_pos, Option.some_inj]
    refine ⟨fun h => .inl ⟨trivial, h.symm⟩, fun h => ?_⟩
    rcases h with ⟨-, rfl⟩ | ⟨h, -⟩
    · rfl
    · omega
  · have ha := lt_of_any hq
    simp only [Nat.add_sub_cancel_left]
    have hiff : s.pos + 1 ≤ css.length ∧ (slice css s.pos (s.pos + 1)).map fold = (slice css a (a + 1)).map fold ↔
        s.pos < css.length ∧ (css[s.pos]?).map fold = (css[a]?).map fold := by
      refine and_congr_right fun hlt => ?_
      rw [slice_succ hlt, slice_succ ha, List.getElem?_eq_getElem hlt, List.getElem?_eq_getElem ha]
      simp
    constructor
    · intro h
      split at h
      · rename_i hif
        cases h
        exact .inr ⟨trivial, (hiff.mp hif).1, (hiff.mp hif).2, rfl⟩
      · cases h
    · rintro (⟨h, -⟩ | ⟨-, h1, h2, rfl⟩)
      · omega
      · rw [if_pos (hiff.mpr ⟨h1, h2⟩)]

theorem not_quote_paren {l : Nat} (hq : (css[i]?).any isQuote = true) (hsame : (css[l]?).map fold = (css[i]?).map fold) :
    css[l]? ≠ some ')'.toNat := by
  intro hl
  obtain ⟨c, hc, hq⟩ := (Option.any_eq_true _ _).mp hq
  rw [hl, hc, Option.map_some, Option.map_some, Option.some_inj] at hsame
  rcases Bool.or_eq_true_iff.mp hq with hq | hq <;> rw [of_decide_eq_true hq] at hsame <;> exact absurd hsame (by decide)

theorem not_space_paren (h : (css[i]?).any isSpace = true) : css[i]? ≠ some ')'.toNat := by
  intro hi
  rw [hi] at h
  exact absurd h (by decide)

theorem reaches_tail {a b : Nat} {m m' : State} (hcaps : m.caps 1 = some (a, b)) (hab : b = a ∨ b = a + 1 ∧ (css[a]?).any isQuote = true)
    (hm : m.pos ≤ css.length) : Reaches css (seqs urlTail) m m' ↔
      ∃ paren, indexOf css ')'.toNat m.pos = some paren ∧ Closes css a b m.pos paren ∧ m' = m.goto (paren + 1) := by
  constructor
  · rintro ⟨m1, h1, m2, h2, m3, h3, m4, h4, rfl⟩
    have h1len := (Reaches.le h1 hm).2
    obtain ⟨h1, hm1⟩ := (reaches_iff_moves rfl).mp h1
    obtain ⟨h3, hm3⟩ := (reaches_iff_moves rfl).mp h3
    obtain ⟨h4, hm4⟩ := (reaches_iff_moves rfl).mp h4
    obtain ⟨hparen, h4⟩ := moves_chr.mp h4
    have hlen := (List.getElem?_eq_some_iff.mp hparen).1
    obtain ⟨h3le, hspaces⟩ := moves_star_one.mp h3
    obtain ⟨h1le, hno⟩ := (moves_non h1len).mp h1
    have hcaps1 : m1.caps 1 = some (a, b) := by rw [hm1, State.caps_goto, hcaps]
    rw [hm4, hm3, h4]
    rcases (repeats_quote hcaps1 hab h1len).mp h2 with ⟨rfl, rfl⟩ | ⟨rfl, hlt, hsame, rfl⟩
    · refine ⟨m3.pos, indexOf_eq_some.mpr ⟨by omega, hparen, fun j hj1 hj2 => ?_⟩, .inl rfl, by rw [hm1]; rfl⟩
      rcases Nat.lt_or_ge j m2.pos with hlt | hge
      · exact hno j hj1 hlt
      · exact not_space_paren (hspaces j hge hj2)
    · rw [State.pos_goto] at h3le hspaces
      have hq : (css[a]?).any isQuote = true := hab.elim (fun h => absurd h (by omega)) (·.2)
      refine ⟨m3.pos, indexOf_eq_some.mpr ⟨by omega, hparen, fun j hj1 hj2 => ?_⟩, .inr ⟨m1.pos, h1le, h3le, hsame, hspaces⟩, by rw [hm1]; rfl⟩
      rcases Nat.lt_trichotomy j m1.pos with hlt | rfl | hgt
      · exact hno j hj1 hlt
      · exact not_quote_paren hq hsame
      · exact not_space_paren (hspaces j hgt hj2)
  · rintro ⟨paren, hparen, hcloses, rfl⟩
    obtain ⟨hle, hc, hno⟩ := indexOf_eq_some.mp hparen
    have hlen := indexOf_lt hparen
    have hcaps' (l : Nat) : (m.goto l).caps 1 = some (a, b) := hcaps
    have hend : Reaches css (char ')') (m.goto paren) (m.goto (paren + 1)) := (reaches_iff_moves rfl).mpr ⟨moves_chr.mpr ⟨hc, rfl⟩, rfl⟩
    rcases hcloses with rfl | ⟨l, hl1, hl2, hsame, hspaces⟩
    · refine ⟨m.goto paren, (reaches_iff_moves rfl).mpr ⟨(moves_non hlen.le).mpr ⟨hle, hno⟩, rfl⟩, m.goto paren, ?_, m.goto paren,
        (reaches_iff_moves rfl).mpr ⟨.refl, rfl⟩, _, hend, rfl⟩
      exact (repeats_quote (hcaps' paren) hab hlen.le).mpr (.inl ⟨rfl, rfl⟩)
    · by_cases hab' : b = a
      · refine ⟨m.goto paren, (reaches_iff_moves rfl).mpr ⟨(moves_non hlen.le).mpr ⟨hle, hno⟩, rfl⟩, m.goto paren, ?_, m.goto paren,
          (reaches_iff_moves rfl).mpr ⟨.refl, rfl⟩, _, hend, rfl⟩
        exact (repeats_quote (hcaps' paren) hab hlen.le).mpr (.inl ⟨hab', rfl⟩)
      · refine ⟨m.goto l, (reaches_iff_moves rfl).mpr ⟨(moves_non (by omega : l ≤ css.length)).mpr ⟨hl1, fun j h1 h2 => hno j h1 (by omega)⟩, rfl⟩,
          m.goto (l + 1), ?_, m.goto paren, (reaches_iff_moves rfl).mpr ⟨moves_star_one.mpr ⟨hl2, hspaces⟩, rfl⟩, _, hend, rfl⟩
        exact (repeats_quote (hcaps' l) hab (by rw [State.pos_goto]; omega)).mpr
          (.inr ⟨(hab.resolve_left hab').1, by rw [State.pos_goto]; omega, hsame, rfl⟩)

/-- Where the whole pattern matches, the part up to the address decides everything but the end. -/
theorem matchAt_externalUrl (hi : i ≤ css.length) :
    matchAt css externalUrl i = (matchAt css urlRe i).bind fun m => run css (seqs urlTail) m some := by
  rw [matchAt, externalUrl, run_append]
  exact run_det det_urlRe hi

theorem run_tail {a b paren : Nat} {m : State} (hcaps : m.caps 1 = some (a, b)) (hab : b = a ∨ b = a + 1 ∧ (css[a]?).any isQuote = true)
    (hm : m.pos ≤ css.length) (hparen : indexOf css ')'.toNat m.pos = some paren) (hcloses : Closes css a b m.pos paren) :
    run css (seqs urlTail) m some = some (m.goto (paren + 1)) := by
  refine run_unique hm ((reaches_tail hcaps hab hm).mpr ⟨paren, hparen, hcloses, rfl⟩) fun m' hm' hne => absurd ?_ hne
  obtain ⟨paren', hparen', -, rfl⟩ := (reaches_tail hcaps hab hm).mp hm'
  cases hparen.symm.trans hparen'
  rfl

theorem run_tail_none {a b : Nat} {m : State} (hcaps : m.caps 1 = some (a, b)) (hab : b = a ∨ b = a + 1 ∧ (css[a]?).any isQuote = true)
    (hm : m.pos ≤ css.length) (h : ∀ paren, indexOf css ')'.toNat m.pos = some paren → ¬ Closes css a b m.pos paren) :
    run css (seqs urlTail) m some = none := by
  refine run_eq_none hm fun m' hm' => ?_
  obtain ⟨paren, hparen, hcloses, -⟩ := (reaches_tail hcaps hab hm).mp hm'
  exact absurd hcloses (h paren hparen)

/-- The closing bracket that is remembered is the first one from a place that the search has passed. -/
def Cached (css : Text) (lastIndex : Nat) (paren lastNonSpace : Int) : Prop :=
  paren < lastIndex ∨ ∃ p v : Nat, paren = p ∧ v ≤ lastIndex ∧ indexOf css ')'.toNat v = some p ∧ lastNonSpace = lastNonSpaceFrom css v p

theorem fold_quote {x q : Nat} (hq : isQuote q = true) (h : fold x = fold q) : x = q := by
  rw [isQuote, Bool.or_eq_true_iff, decide_eq_true_iff, decide_eq_true_iff] at hq
  have hq' : q = 39 ∨ q = 34 := hq
  rw [fold, fold, if_neg (by omega : ¬ (65 ≤ q ∧ q ≤ 90))] at h
  split at h
  · omega
  · exact h

/-- What the bracket and the last place before it that is no white space say of the quote. -/
theorem closes_iff {a b v p from' : Nat} (hab : b = a ∨ b = a + 1 ∧ (css[a]?).any isQuote = true) (hv : v ≤ from') (hp : from' ≤ p)
    (hparen : indexOf css ')'.toNat v = some p) :
    ¬ Closes css a b from' p ↔ slice css a b ≠ [] ∧
      (lastNonSpaceFrom css v p < from' ∨ (css[(lastNonSpaceFrom css v p).toNat]?).toList ≠ slice css a b) := by
  have hlen := indexOf_lt hparen
  obtain ⟨h1, h2, h3, h4⟩ := lastNonSpaceFrom_spec (hv.trans hp) hlen.le
  rcases hab with rfl | ⟨rfl, hq⟩
  · refine iff_of_false (fun h => h (.inl rfl)) fun h => h.1 ?_
    rw [slice, Nat.sub_self, List.take_zero]
  · obtain ⟨q, hget, hq⟩ := (Option.any_eq_true _ _).mp hq
    have ha := (List.getElem?_eq_some_iff.mp hget).1
    have hslice : slice css a (a + 1) = [q] := by
      rw [slice_succ ha, ← Option.some_inj.mp ((List.getElem?_eq_getElem ha).symm.trans hget)]
    rw [hslice]
    constructor
    · intro h
      refine ⟨List.cons_ne_nil _ _, ?_⟩
      by_contra hno
      rw [not_or, not_lt, not_not] at hno
      obtain ⟨l, hl⟩ := Int.eq_ofNat_of_zero_le (by omega : 0 ≤ lastNonSpaceFrom css v p)
      rw [hl, Int.toNat_natCast] at hno
      rw [hl] at h2 h3
      refine h (.inr ⟨l, by omega, by omega, ?_, fun x hx1 hx2 => h3 x (by omega) hx2⟩)
      rw [hget, Option.toList_eq_singleton_iff.mp hno.2]
    · rintro ⟨-, hno⟩ (heq | ⟨l, hl1, hl2, hsame, hspaces⟩)
      · omega
      · have hl : css[l]? = some q := by
          rw [hget] at hsame
          obtain ⟨x, hx, hfold⟩ := Option.map_eq_some_iff.mp hsame
          rw [hx, fold_quote hq hfold]
        have hnot : ¬ (css[l]?).any isSpace = true := by
          rw [hl]
          rcases Bool.or_eq_true_iff.mp hq with hq | hq <;> rw [of_decide_eq_true hq] <;> decide
        have hlast : lastNonSpaceFrom css v p = l := by
          rcases lt_trichotomy (lastNonSpaceFrom css v p) l with hlt | heq | hgt
          · exact absurd (h3 l hlt hl2) hnot
          · exact heq
          · exact absurd (hspaces _ (by omega) (by omega)) (h4 (by omega))
        rw [hlast, Int.toNat_natCast, hl] at hno
        rcases hno with hno | hno
        · omega
        · exact hno rfl

theorem stripExternalCssUrls.loop_eq (out : Text) (pos lastIndex : Nat) (paren lastNonSpace : Int) (hc : Cached css lastIndex paren lastNonSpace) :
    loop css out pos lastIndex paren lastNonSpace =
      out ++ splice (fun _ _ => codes "url()") State.pos css pos (occurrences (matchAt css externalUrl) State.pos css.length lastIndex) := by
  induction hd : css.length + 1 - lastIndex using Nat.strong_induction_on generalizing out pos lastIndex paren lastNonSpace with
  | _ d ih =>
  rw [loop]
  split
  · rename_i hm
    rw [splice_none fun j h1 h2 => ?_]
    rw [matchAt_externalUrl h2, first_eq_none.mp hm j h1 h2]
    rfl
  · rename_i i m hm
    obtain ⟨h1, h2, hreach, hmlen, hbefore⟩ := exec_urlRe hm
    obtain ⟨-, hlt, hinside, a, b, hcaps, hab⟩ := reaches_urlRe hreach
    rw [State.pos_start] at hlt hinside
    have hat : matchAt css urlRe i = some m := (first_eq_some.mp hm).2.2.1
    have hskip (j : Nat) (h3 : lastIndex ≤ j) (h4 : j < i) : matchAt css externalUrl j = none := by
      rw [matchAt_externalUrl (by omega), hbefore j h3 h4]
      rfl
    split
    · rename_i hclosing
      rw [closing] at hclosing
      split at hclosing
      · rw [Option.map_eq_none_iff] at hclosing
        -- The address of a later candidate is no earlier one, and no bracket comes behind it.
        rw [splice_none fun j h3 h4 => ?_]
        rcases Nat.lt_or_ge j i with hji | hge
        · exact hskip j h3 hji
        · rw [matchAt_externalUrl h4]
          cases hm' : matchAt css urlRe j with
          | none => rfl
          | some m' =>
            obtain ⟨_, hreach', heq⟩ := run_eq_some h4 hm'
            cases heq
            obtain ⟨hword', hlt', -, a', b', hcaps', hab'⟩ := reaches_urlRe hreach'
            rw [State.pos_start] at hword' hlt'
            have hle : m.pos ≤ m'.pos := by
              rcases hge.eq_or_lt with rfl | hgt
              · cases hat.symm.trans hm'
                exact le_rfl
              · by_contra hno
                exact hinside j hgt (by omega) hword'
            refine run_tail_none hcaps' hab' (hreach'.le h4).2 fun paren hparen => ?_
            rw [indexOf, find_none_later hclosing hle] at hparen
            cases hparen
      · cases hclosing
    · rename_i paren' last' hclosing
      obtain ⟨p, v, rfl, hv, hp, rfl⟩ : ∃ p v : Nat, paren' = p ∧ v ≤ m.pos ∧ indexOf css ')'.toNat v = some p ∧ last' = lastNonSpaceFrom css v p := by
        rw [closing] at hclosing
        split at hclosing
        · obtain ⟨p, hp, heq⟩ := Option.map_eq_some_iff.mp hclosing
          cases heq
          exact ⟨p, m.pos, rfl, le_rfl, hp, rfl⟩
        · cases hclosing
          rcases hc with hc | ⟨p, v, rfl, hv, hp, rfl⟩
          · omega
          · exact ⟨p, v, rfl, by omega, hp, rfl⟩
      have hple := le_closing hclosing
      have hparen : indexOf css ')'.toNat m.pos = some p := find_later hp hv (by omega)
      have hgroup : groupText css m 1 = slice css a b := by rw [groupText, hcaps]; rfl
      have hif := closes_iff hab hv (by omega : m.pos ≤ p) hp
      have hplen := indexOf_lt hp
      dsimp only
      rw [hgroup]
      split
      · rename_i hno
        rw [← hif] at hno
        rw [ih _ (by omega) out pos m.pos _ _ (.inr ⟨p, v, rfl, hv, hp, rfl⟩) rfl,
          occurrences_skip (by omega : lastIndex ≤ m.pos) fun j h3 h4 => ?_]
        rcases Nat.lt_trichotomy j i with hji | rfl | hji
        · exact hskip j h3 hji
        · rw [matchAt_externalUrl h2, hat]
          refine run_tail_none hcaps hab hmlen fun paren hparen' => ?_
          cases hparen.symm.trans hparen'
          exact hno
        · rw [matchAt_externalUrl (by omega)]
          cases hm' : matchAt css urlRe j with
          | none => rfl
          | some m' =>
            obtain ⟨_, hreach', heq⟩ := run_eq_some (by rw [State.pos_start]; omega) hm'
            cases heq
            exact absurd (reaches_urlRe hreach').1 (hinside j hji h4)
      · rename_i hno
        rw [← hif, not_not] at hno
        have hmatch : matchAt css externalUrl i = some (m.goto (p + 1)) := by
          rw [matchAt_externalUrl h2, hat]
          exact run_tail hcaps hab hmlen hparen hno
        have hnat : ((p : Int) + 1).toNat = p + 1 := by omega
        rw [hnat, ih _ (by omega) _ _ _ _ _ (.inl (by omega)) rfl, splice_found h1 hskip h2 hmatch (by rw [State.pos_goto]; omega),
          State.pos_goto]
        simp only [List.append_assoc]

end MailExpert.Sanitizer
