import MailExpert.Sanitizer.Patterns

/-!
# Dark mode in CSS

`stripDarkMediaBlocks` and `stripOutlookDarkRules`. Candidates that reach the same brace or bracket share what follows, so after one fails the
loop goes on behind it.
-/

namespace MailExpert.Sanitizer

open Encodings (isSpace)
open Regex Search

variable {css : Text} {i j k n : Nat}

/-- `/@media\b/gi` -/
def atMedia : Regex Nat := seqs [ci "@media", boundary isWord]

/-- `/prefers-color-scheme\s*:\s*dark/i` -/
def darkQuery : Regex Nat := seqs [ci "prefers-color-scheme", spaces, char ':', spaces, ci "dark"]

/-- `[^{}]` -/
def noBrace : Regex Nat := one fun x => decide (x ≠ '{'.toNat ∧ x ≠ '}'.toNat)

/-- `/@media\b[^{]*prefers-color-scheme\s*:\s*dark[^{]*\{(?:[^{}]|\{[^{}]*\})*\}/gi` -/
def darkMedia : Regex Nat :=
  seqs ([ci "@media", boundary isWord] ++
    [till '{', darkQuery, till '{', char '{', star (alt noBrace (seqs [char '{', star noBrace, char '}'])), char '}'])

/-- The loop of `mediaBlockEnd`, over what is left of the text. -/
def blockEnd (depth : Nat) : Text → Nat → Option Nat
  | [], _ => none
  | c :: rest, i =>
    if c = '{'.toNat then if depth = 2 then none else blockEnd 2 rest (i + 1)
    else if c = '}'.toNat then if depth = 1 then some (i + 1) else blockEnd 1 rest (i + 1)
    else blockEnd depth rest (i + 1)

def mediaBlockEnd (css : Text) (opened : Nat) : Option Nat := blockEnd 1 (css.drop (opened + 1)) (opened + 1)

theorem moves_atMedia : Moves css atMedia i j ↔ spelled fold css (codes "@media") i = true ∧ atBoundary isWord css (i + 6) = true ∧ j = i + 6 := by
  constructor
  · rintro ⟨l, h1, l', ⟨h2, rfl⟩, h3⟩
    obtain ⟨hword, rfl⟩ := moves_lit.mp h1
    exact ⟨hword, h2, h3⟩
  · rintro ⟨h1, h2, rfl⟩
    exact ⟨i + 6, moves_lit.mpr ⟨h1, rfl⟩, i + 6, ⟨h2, rfl⟩, rfl⟩

theorem exec_atMedia {m : State} (h : atMedia.exec css i = some (k, m)) :
    i ≤ k ∧ k ≤ css.length ∧ m.pos = k + 6 ∧ Moves css atMedia k (k + 6) ∧ ∀ j, i ≤ j → j < k → ¬ ∃ l, Moves css atMedia j l := by
  obtain ⟨h1, h2, h3, h4⟩ := first_eq_some.mp h
  have hmoves := moves_of_matchAt rfl h2 h3
  have hpos := (moves_atMedia.mp hmoves).2.2
  refine ⟨h1, h2, hpos, hpos ▸ hmoves, fun j h5 h6 => ?_⟩
  rw [← matchAt_isSome rfl (by omega), h4 j h5 h6]
  exact Bool.false_ne_true

theorem blockEnd_le {depth : Nat} {rest : Text} (h : blockEnd depth rest i = some j) : i < j := by
  induction rest generalizing depth i with
  | nil => cases h
  | cons c rest ih =>
    rw [blockEnd] at h
    split at h
    · split at h
      · cases h
      · exact Nat.lt_of_succ_lt (ih h)
    · split at h
      · split at h
        · cases h
          exact Nat.lt_succ_self i
        · exact Nat.lt_of_succ_lt (ih h)
      · exact Nat.lt_of_succ_lt (ih h)

/-- What ends the dark block whose brace is at `opened`, if the query between is a dark one. -/
def darkEnd (css : Text) (last opened : Nat) : Option Nat :=
  if darkQuery.test (slice css last opened) then mediaBlockEnd css opened else none

theorem lt_of_darkEnd {last opened : Nat} (h : darkEnd css last opened = some j) : opened < j := by
  rw [darkEnd] at h
  split at h
  · exact Nat.lt_of_succ_lt (blockEnd_le h)
  · cases h

def stripDarkMediaBlocks.loop (css out : Text) (pos lastIndex : Nat) : Text :=
  match _hm : atMedia.exec css lastIndex with
  | none => out ++ css.drop pos
  | some (i, m) =>
    match _ho : indexOf css '{'.toNat m.pos with
    | none => out ++ css.drop pos
    | some opened =>
      match _he : darkEnd css m.pos opened with
      | none => loop css out pos opened
      | some e => loop css (out ++ slice css pos i) e e
termination_by css.length + 1 - lastIndex
decreasing_by
  all_goals
    obtain ⟨h1, h2, h3, -⟩ := exec_atMedia _hm
    have h4 := (indexOf_eq_some.mp _ho).1
    have h5 := indexOf_lt _ho
  · omega
  · have := lt_of_darkEnd _he
    omega

def stripDarkMediaBlocks (css : Text) : Text := stripDarkMediaBlocks.loop css [] 0 0

/-! ### The loop is the pattern -/

variable {depth c l : Nat}

theorem drop_of_getElem? (hi : css[i]? = some c) : css.drop i = c :: css.drop (i + 1) := by
  obtain ⟨hlt, rfl⟩ := List.getElem?_eq_some_iff.mp hi
  exact List.drop_eq_getElem_cons hlt

theorem blockEnd_other (hi : css[i]? = some c) (hopen : c ≠ '{'.toNat) (hclose : c ≠ '}'.toNat) :
    blockEnd depth (css.drop i) i = blockEnd depth (css.drop (i + 1)) (i + 1) := by
  rw [drop_of_getElem? hi, blockEnd, if_neg hopen, if_neg hclose]

theorem blockEnd_open (hi : css[i]? = some '{'.toNat) : blockEnd 1 (css.drop i) i = blockEnd 2 (css.drop (i + 1)) (i + 1) := by
  rw [drop_of_getElem? hi, blockEnd, if_pos rfl, if_neg (by decide)]

theorem blockEnd_close (hi : css[i]? = some '}'.toNat) : blockEnd 2 (css.drop i) i = blockEnd 1 (css.drop (i + 1)) (i + 1) := by
  rw [drop_of_getElem? hi, blockEnd, if_neg (by decide), if_pos rfl, if_neg (by decide)]

theorem blockEnd_last (hi : css[i]? = some '}'.toNat) : blockEnd 1 (css.drop i) i = some (i + 1) := by
  rw [drop_of_getElem? hi, blockEnd, if_neg (by decide), if_pos rfl, if_pos rfl]

theorem any_noBrace (h : (css[i]?).any (fun x => decide (x ≠ '{'.toNat ∧ x ≠ '}'.toNat)) = true) :
    ∃ c, css[i]? = some c ∧ c ≠ '{'.toNat ∧ c ≠ '}'.toNat := by
  cases hc : css[i]? with
  | none =>
    rw [hc] at h
    cases h
  | some c =>
    rw [hc, Option.any_some, decide_eq_true_iff] at h
    exact ⟨c, rfl, h⟩

theorem blockEnd_range (hij : i ≤ j) (h : All css (fun x => decide (x ≠ '{'.toNat ∧ x ≠ '}'.toNat)) i j) :
    blockEnd depth (css.drop i) i = blockEnd depth (css.drop j) j := by
  induction j, hij using Nat.le_induction with
  | base => rfl
  | succ j hij ih =>
    obtain ⟨c, hc, hopen, hclose⟩ := any_noBrace (h j hij (Nat.lt_succ_self j))
    rw [ih fun l h1 h2 => h l h1 (by omega), blockEnd_other hc hopen hclose]

/-- `(?:[^{}]|\{[^{}]*\})*\}` -/
def block : Regex Nat := seqs [star (alt noBrace (seqs [char '{', star noBrace, char '}'])), char '}']

theorem moves_nested : Moves css (seqs [char '{', star noBrace, char '}']) i j ↔
    css[i]? = some '{'.toNat ∧
      ∃ l, i + 1 ≤ l ∧ All css (fun x => decide (x ≠ '{'.toNat ∧ x ≠ '}'.toNat)) (i + 1) l ∧ css[l]? = some '}'.toNat ∧ j = l + 1 := by
  constructor
  · rintro ⟨_, h1, l, h2, _, h3, h4⟩
    obtain ⟨hopen, rfl⟩ := moves_chr.mp h1
    obtain ⟨hle, hall⟩ := moves_star_one.mp h2
    obtain ⟨hclose, rfl⟩ := moves_chr.mp h3
    exact ⟨hopen, l, hle, hall, hclose, h4⟩
  · rintro ⟨h1, l, hle, hall, h3, rfl⟩
    exact ⟨i + 1, moves_chr.mpr ⟨h1, rfl⟩, l, moves_star_one.mpr ⟨hle, hall⟩, l + 1, moves_chr.mpr ⟨h3, rfl⟩, rfl⟩

/-- An item of a block leaves the depth as it is. -/
theorem blockEnd_item (h : Moves css (alt noBrace (seqs [char '{', star noBrace, char '}'])) i j) :
    blockEnd 1 (css.drop i) i = blockEnd 1 (css.drop j) j := by
  rcases h with ⟨h, rfl⟩ | h
  · obtain ⟨c, hc, hopen, hclose⟩ := any_noBrace h
    exact blockEnd_other hc hopen hclose
  · obtain ⟨hopen, l, hle, hall, hclose, rfl⟩ := moves_nested.mp h
    rw [blockEnd_open hopen, blockEnd_range hle hall, blockEnd_close hclose]

/-- Inside a nested block, its end comes first. -/
theorem blockEnd_deep (h : blockEnd 2 (css.drop i) i = some j) :
    ∃ l, i ≤ l ∧ All css (fun x => decide (x ≠ '{'.toNat ∧ x ≠ '}'.toNat)) i l ∧ css[l]? = some '}'.toNat ∧
      blockEnd 1 (css.drop (l + 1)) (l + 1) = some j := by
  induction hd : css.length - i generalizing i with
  | zero =>
    rw [List.drop_eq_nil_of_le (by omega)] at h
    cases h
  | succ d ih =>
    have hget : css[i]? = some css[i] := List.getElem?_eq_getElem (by omega)
    by_cases hopen : css[i] = '{'.toNat
    · rw [drop_of_getElem? hget, blockEnd, if_pos hopen, if_pos rfl] at h
      cases h
    by_cases hclose : css[i] = '}'.toNat
    · rw [hclose] at hget
      exact ⟨i, le_rfl, fun l h1 h2 => absurd h2 (by omega), hget, (blockEnd_close hget).symm.trans h⟩
    · rw [blockEnd_other hget hopen hclose] at h
      obtain ⟨l, hle, hall, hrest⟩ := ih h (by omega)
      refine ⟨l, by omega, fun l' h1 h2 => ?_, hrest⟩
      rcases h1.eq_or_lt with rfl | h1
      · rw [hget, Option.any_some, decide_eq_true_iff]
        exact ⟨hopen, hclose⟩
      · exact hall l' h1 h2

theorem moves_block : Moves css block i j ↔ blockEnd 1 (css.drop i) i = some j := by
  constructor
  · rintro ⟨l, h1, _, h2, rfl⟩
    obtain ⟨hclose, rfl⟩ := moves_chr.mp h2
    change Relation.ReflTransGen _ i l at h1
    induction h1 using Relation.ReflTransGen.head_induction_on with
    | refl => exact blockEnd_last hclose
    | head hstep _ ih => exact (blockEnd_item hstep.1).trans ih
  · intro h
    -- An item at the front is at least one character, and behind it less is left.
    have hstep {i a : Nat} (hitem : Moves css (alt noBrace (seqs [char '{', star noBrace, char '}'])) i a) (ha : i < a)
        (hrest : Moves css block a j) : Moves css block i j := by
      obtain ⟨l, h1, h2⟩ := hrest
      exact ⟨l, Relation.ReflTransGen.head ⟨hitem, ha⟩ h1, h2⟩
    induction hd : css.length - i using Nat.strong_induction_on generalizing i with
    | _ d ih =>
    have hlt : i < css.length := by
      by_contra hge
      rw [List.drop_eq_nil_of_le (by omega)] at h
      cases h
    have hget : css[i]? = some css[i] := List.getElem?_eq_getElem hlt
    by_cases hopen : css[i] = '{'.toNat
    · rw [hopen] at hget
      rw [blockEnd_open hget] at h
      obtain ⟨l, hle, hall, hclose, hrest⟩ := blockEnd_deep h
      refine hstep (.inr (moves_nested.mpr ⟨hget, l, hle, hall, hclose, rfl⟩)) (by omega) ?_
      exact ih (css.length - (l + 1)) (by omega) hrest rfl
    by_cases hclose : css[i] = '}'.toNat
    · rw [hclose] at hget
      rw [blockEnd_last hget] at h
      cases h
      exact ⟨i, .refl, i + 1, moves_chr.mpr ⟨hget, rfl⟩, rfl⟩
    · rw [blockEnd_other hget hopen hclose] at h
      have hitem : Moves css noBrace i (i + 1) := by
        refine ⟨?_, rfl⟩
        rw [hget, Option.any_some, decide_eq_true_iff]
        exact ⟨hopen, hclose⟩
      exact hstep (.inl hitem) (Nat.lt_succ_self i) (ih (css.length - (i + 1)) (by omega) h rfl)

theorem moves_darkMedia : Moves css darkMedia i j ↔
    Moves css atMedia i (i + 6) ∧ ∃ opened, indexOf css '{'.toNat (i + 6) = some opened ∧ darkEnd css (i + 6) opened = some j := by
  have hwithin {l : Nat} : Moves css (seqs [till '{', darkQuery, till '{', char '{',
      star (alt noBrace (seqs [char '{', star noBrace, char '}'])), char '}']) l j ↔
      ∃ opened, indexOf css '{'.toNat l = some opened ∧ darkEnd css l opened = some j := by
    refine (moves_within (r := darkQuery) (by decide) (by rfl) (by decide)).trans (exists_congr fun opened => and_congr_right fun _ => ?_)
    rw [darkEnd, mediaBlockEnd]
    by_cases htest : darkQuery.test (slice css l opened) = true
    · rw [if_pos htest, ← moves_block]
      exact and_iff_right htest
    · rw [if_neg htest]
      exact iff_of_false (fun h => htest h.1) (fun h => nomatch h)
  rw [darkMedia, moves_append]
  constructor
  · rintro ⟨l, h1, h2⟩
    obtain rfl := (moves_atMedia.mp h1).2.2
    exact ⟨h1, hwithin.mp h2⟩
  · rintro ⟨h1, h2⟩
    exact ⟨i + 6, h1, hwithin.mpr h2⟩

/-- A query that is not dark has no dark part. -/
theorem darkEnd_later {last last' opened : Nat} (h : darkEnd css last opened = none) (hle : last ≤ last') (ho : last' ≤ opened)
    (hlen : opened ≤ css.length) : darkEnd css last' opened = none := by
  rw [darkEnd] at h ⊢
  split at h
  · rw [h, ite_self]
  · rename_i htest
    refine if_neg fun htest' => htest ?_
    obtain ⟨i, j, hi, hmoves⟩ := (test_slice (by decide) (by rfl) ho hlen).mp htest'
    exact (test_slice (by decide) (by rfl) (hle.trans ho) hlen).mpr ⟨i, j, hle.trans hi, hmoves⟩

theorem stripDarkMediaBlocks.loop_eq (out : Text) (pos lastIndex : Nat) :
    loop css out pos lastIndex =
      out ++ splice (fun _ _ => []) State.pos css pos (occurrences (matchAt css darkMedia) State.pos css.length lastIndex) := by
  have hnone {j : Nat} (hj : j ≤ css.length) (h : ∀ l, ¬ Moves css darkMedia j l) : matchAt css darkMedia j = none :=
    matchAt_eq_none (by rfl) hj h
  induction hd : css.length + 1 - lastIndex using Nat.strong_induction_on generalizing out pos lastIndex with
  | _ d ih =>
  rw [loop]
  split
  · -- No candidate is left.
    rename_i hm
    rw [splice_none fun j h1 h2 => hnone h2 fun l hl => ?_]
    have hcand := first_eq_none.mp hm j h1 h2
    rw [← Option.not_isSome_iff_eq_none, matchAt_isSome rfl h2] at hcand
    exact hcand ⟨_, (moves_darkMedia.mp hl).1⟩
  · rename_i i m hm
    obtain ⟨h1, h2, hpos, hcand, hbefore⟩ := exec_atMedia hm
    have hskip (j : Nat) (h3 : lastIndex ≤ j) (h4 : j < i) : matchAt css darkMedia j = none :=
      hnone (by omega) fun l hl => hbefore j h3 h4 ⟨_, (moves_darkMedia.mp hl).1⟩
    rw [hpos]
    split
    · -- Without a brace no later candidate has one either.
      rename_i ho
      rw [splice_none fun j h3 h4 => ?_]
      rcases Nat.lt_or_ge j i with hlt | hge
      · exact hskip j h3 hlt
      · refine hnone h4 fun l hl => ?_
        obtain ⟨-, opened, ho', -⟩ := moves_darkMedia.mp hl
        rw [indexOf, find_none_later ho (by omega)] at ho'
        cases ho'
    · rename_i opened ho
      obtain ⟨hle, -, hno⟩ := indexOf_eq_some.mp ho
      have hlt := indexOf_lt ho
      split
      · -- The candidates up to the brace share it, and a query before it.
        rename_i he
        rw [ih _ (by omega) out pos opened rfl, occurrences_skip (by omega : lastIndex ≤ opened) fun j h3 h4 => ?_]
        rcases Nat.lt_or_ge j i with hji | hge
        · exact hskip j h3 hji
        · refine hnone (by omega) fun l hl => ?_
          obtain ⟨hat, opened', ho', he'⟩ := moves_darkMedia.mp hl
          have hjo : j + 6 ≤ opened := by
            by_contra hlt'
            exact hat.avoids (by rfl) (by decide) (by omega) (by omega) (indexOf_eq_some.mp ho).2.1
          rw [show indexOf css '{'.toNat (j + 6) = some opened from find_later ho (by omega) hjo] at ho'
          cases ho'
          rw [darkEnd_later he (by omega) hjo hlt.le] at he'
          cases he'
      · rename_i e he
        have hmatch : matchAt css darkMedia i = some (State.start e) := by
          refine matchAt_eq_some (by rfl) h2 (moves_darkMedia.mpr ⟨hcand, opened, ho, he⟩) fun j' hj' => ?_
          obtain ⟨-, opened', ho', he'⟩ := moves_darkMedia.mp hj'
          rw [ho] at ho'
          cases ho'
          rw [he] at he'
          cases he'
          rfl
        have hlast := lt_of_darkEnd he
        rw [ih _ (by omega) _ e e rfl, splice_found h1 hskip h2 hmatch (by rw [State.pos_start]; omega), List.append_nil, List.append_assoc,
          State.pos_start]

/-! ## Rules about Outlook's dark mode -/

/-- `/data-og/i` -/
def dataOg : Regex Nat := ci "data-og"

/-- `/\[[^\]]*data-og[^\]]*\][^{]*\{[^}]*\}/gi` -/
def outlookRule : Regex Nat := seqs [char '[', till ']', dataOg, till ']', char ']', till '{', char '{', till '}', char '}']

def stripOutlookDarkRules.loop (css out : Text) (pos start : Nat) : Text :=
  match _hlb : indexOf css '['.toNat start with
  | none => out ++ css.drop pos
  | some lb =>
    match _hrb : indexOf css ']'.toNat (lb + 1) with
    | none => out ++ css.drop pos
    | some rb =>
      if !dataOg.test (slice css (lb + 1) rb) then loop css out pos (rb + 1)
      else
        match _ho : indexOf css '{'.toNat (rb + 1) with
        | none => out ++ css.drop pos
        | some opened =>
          match _hc : indexOf css '}'.toNat (opened + 1) with
          | none => out ++ css.drop pos
          | some close => loop css (out ++ slice css pos lb) (close + 1) (close + 1)
termination_by css.length + 1 - start
decreasing_by
  all_goals
    have h1 := (indexOf_eq_some.mp _hlb).1
    have h2 := (indexOf_eq_some.mp _hrb).1
    have h3 := indexOf_lt _hrb
  · omega
  · have h4 := (indexOf_eq_some.mp _ho).1
    have h5 := (indexOf_eq_some.mp _hc).1
    have h6 := indexOf_lt _hc
    omega

def stripOutlookDarkRules (css : Text) : Text := stripOutlookDarkRules.loop css [] 0 0

theorem moves_outlookRule : Moves css outlookRule i j ↔
    css[i]? = some '['.toNat ∧ ∃ rb, indexOf css ']'.toNat (i + 1) = some rb ∧ dataOg.test (slice css (i + 1) rb) = true ∧
      ∃ opened, indexOf css '{'.toNat (rb + 1) = some opened ∧ ∃ close, indexOf css '}'.toNat (opened + 1) = some close ∧ j = close + 1 := by
  have hrest {l : Nat} : Moves css (seqs [till ']', dataOg, till ']', char ']', till '{', char '{', till '}', char '}']) l j ↔
      ∃ rb, indexOf css ']'.toNat l = some rb ∧ dataOg.test (slice css l rb) = true ∧
        ∃ opened, indexOf css '{'.toNat (rb + 1) = some opened ∧ ∃ close, indexOf css '}'.toNat (opened + 1) = some close ∧ j = close + 1 := by
    refine (moves_within (r := dataOg) (by decide) (by rfl) (by decide)).trans (exists_congr fun rb => ?_)
    refine and_congr_right fun _ => and_congr_right fun _ => moves_until.trans (exists_congr fun opened => ?_)
    exact and_congr_right fun _ => moves_until
  constructor
  · rintro ⟨l, h1, h2⟩
    obtain ⟨hopen, rfl⟩ := moves_chr.mp h1
    exact ⟨hopen, hrest.mp h2⟩
  · rintro ⟨h1, h2⟩
    exact ⟨i + 1, moves_chr.mpr ⟨h1, rfl⟩, hrest.mpr h2⟩

/-- A part of a text without a match has none either. -/
theorem not_test_later {r : Regex Nat} (hr : r.narrow = true) (hplain : r.plain = true) {a a' b : Nat} (h : ¬ r.test (slice css a b) = true)
    (hle : a ≤ a') (hb : a' ≤ b) (hlen : b ≤ css.length) : ¬ r.test (slice css a' b) = true := by
  intro h'
  obtain ⟨i, j, hi, hmoves⟩ := (test_slice hr hplain hb hlen).mp h'
  exact h ((test_slice hr hplain (hle.trans hb) hlen).mpr ⟨i, j, hle.trans hi, hmoves⟩)

theorem stripOutlookDarkRules.loop_eq (out : Text) (pos start : Nat) :
    loop css out pos start =
      out ++ splice (fun _ _ => []) State.pos css pos (occurrences (matchAt css outlookRule) State.pos css.length start) := by
  have hnone {j : Nat} (hj : j ≤ css.length) (h : ∀ l, ¬ Moves css outlookRule j l) : matchAt css outlookRule j = none :=
    matchAt_eq_none (by rfl) hj h
  induction hd : css.length + 1 - start using Nat.strong_induction_on generalizing out pos start with
  | _ d ih =>
  rw [loop]
  split
  · rename_i hlb
    rw [splice_none fun j h1 h2 => hnone h2 fun l hl => ?_]
    exact indexOf_eq_none.mp hlb j h1 (moves_outlookRule.mp hl).1
  · rename_i lb hlb
    obtain ⟨h1, hlbc, hbefore⟩ := indexOf_eq_some.mp hlb
    have h2 := indexOf_lt hlb
    have hskip (j : Nat) (h3 : start ≤ j) (h4 : j < lb) : matchAt css outlookRule j = none :=
      hnone (by omega) fun l hl => hbefore j h3 h4 (moves_outlookRule.mp hl).1
    -- Once a match cannot end from `lb` on, none is left.
    have hstop (h : ∀ j, lb ≤ j → j ≤ css.length → ∀ l, ¬ Moves css outlookRule j l) : out ++ css.drop pos =
        out ++ splice (fun _ _ => []) State.pos css pos (occurrences (matchAt css outlookRule) State.pos css.length start) := by
      rw [splice_none fun j h3 h4 => ?_]
      rcases Nat.lt_or_ge j lb with hlt | hge
      · exact hskip j h3 hlt
      · exact hnone h4 (h j hge h4)
    split
    · rename_i hrb
      refine hstop fun j h3 _ l hl => ?_
      obtain ⟨-, rb, hrb', -⟩ := moves_outlookRule.mp hl
      rw [indexOf, find_none_later hrb (by omega)] at hrb'
      cases hrb'
    · rename_i rb hrb
      obtain ⟨h3, hrbc, hnorb⟩ := indexOf_eq_some.mp hrb
      have h4 := indexOf_lt hrb
      split
      · -- The candidates up to the bracket share it.
        rename_i htest
        rw [Bool.not_eq_true', Bool.eq_false_iff] at htest
        rw [ih _ (by omega) out pos (rb + 1) rfl, occurrences_skip (by omega : start ≤ rb + 1) fun j h5 h6 => ?_]
        rcases Nat.lt_or_ge j lb with hlt | hge
        · exact hskip j h5 hlt
        · refine hnone (by omega) fun l hl => ?_
          obtain ⟨hopen, rb', hrb', htest', -⟩ := moves_outlookRule.mp hl
          have hj : j < rb := by
            refine lt_of_le_of_ne (by omega) ?_
            rintro rfl
            rw [hrbc] at hopen
            cases hopen
          rw [show indexOf css ']'.toNat (j + 1) = some rb from find_later hrb (by omega) (by omega)] at hrb'
          cases hrb'
          exact not_test_later (by decide) (by rfl) htest (by omega) (by omega) h4.le htest'
      · rename_i htest
        rw [Bool.not_eq_true', Bool.not_eq_false] at htest
        split
        · rename_i ho
          refine hstop fun j h5 _ l hl => ?_
          obtain ⟨-, rb', hrb', -, opened, ho', -⟩ := moves_outlookRule.mp hl
          have := find_mono hrb (by omega) hrb'
          rw [indexOf, find_none_later ho (by omega)] at ho'
          cases ho'
        · rename_i opened ho
          have h5 := (indexOf_eq_some.mp ho).1
          split
          · rename_i hc
            refine hstop fun j h6 _ l hl => ?_
            obtain ⟨-, rb', hrb', -, opened', ho', close, hc', -⟩ := moves_outlookRule.mp hl
            have h7 := find_mono hrb (by omega) hrb'
            have h8 := find_mono ho (by omega) ho'
            rw [indexOf, find_none_later hc (by omega)] at hc'
            cases hc'
          · rename_i close hc
            have h6 := (indexOf_eq_some.mp hc).1
            have h7 := indexOf_lt hc
            have hmatch : matchAt css outlookRule lb = some (State.start (close + 1)) := by
              refine matchAt_eq_some (by rfl) h2.le (moves_outlookRule.mpr ⟨hlbc, rb, hrb, htest, opened, ho, close, hc, rfl⟩) fun j' hj' => ?_
              obtain ⟨-, rb', hrb', -, opened', ho', close', hc', rfl⟩ := moves_outlookRule.mp hj'
              cases hrb.symm.trans hrb'
              cases ho.symm.trans ho'
              cases hc.symm.trans hc'
              rfl
            rw [ih _ (by omega) _ _ _ rfl, splice_found h1 hskip h2.le hmatch (by rw [State.pos_start]; omega), List.append_nil,
              List.append_assoc, State.pos_start]

end MailExpert.Sanitizer
