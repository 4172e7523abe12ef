import MailExpert.Sanitizer.Patterns

/-!
# Conditional comments and paired tags

`stripMsoConditionals` and `scanPaired`. Behind a candidate that lacks its end there is no later candidate that has one.
-/

namespace MailExpert.Sanitizer

open Encodings (isSpace)
open Regex Search

variable {i j k n : Nat}

/-- `indexOfCi`, for a needle of ASCII characters. -/
def indexOfCi (str needle : Text) (start : Nat) : Option Nat := ((lit fold needle).exec str start).map (·.1)

/-- `/<!--\[if/gi` -/
def openIf : Regex Nat := ci "<!--[if"

def endIf : Text := codes "<![endif]-->"

/-- `<!--\[if(?!\s*!)[^\]]*\]>` -/
def msoOpen : Regex Nat := seqs [openIf, notAhead (seqs [spaces, char '!']), till ']', char ']', char '>']

/-- `/<!--\[if(?!\s*!)[^\]]*\]>[\s\S]*?<!\[endif\]-->/gi` -/
def msoConditional : Regex Nat :=
  seqs ([openIf, notAhead (seqs [spaces, char '!']), till ']', char ']', char '>'] ++ [lazyStar (one fun _ => true), lit fold endIf])

/-- The first place from `i` on that is no white space. -/
def skipSpaces (hc : Text) (i : Nat) : Nat := i + ((hc.drop i).takeWhile isSpace).length

variable {hc : Text}

theorem moves_openIf : Moves hc openIf i j ↔ spelled fold hc (codes "<!--[if") i = true ∧ j = i + 7 := moves_lit

theorem exec_openIf {m : State} (h : openIf.exec hc i = some (k, m)) :
    i ≤ k ∧ k ≤ hc.length ∧ m.pos = k + 7 ∧ Moves hc openIf k (k + 7) ∧ ∀ j, i ≤ j → j < k → ¬ ∃ l, Moves hc openIf j l := by
  obtain ⟨h1, h2, h3, h4⟩ := first_eq_some.mp h
  have hmoves := moves_of_matchAt rfl h2 h3
  have hpos := (moves_openIf.mp hmoves).2
  refine ⟨h1, h2, hpos, hpos ▸ hmoves, fun j h5 h6 => ?_⟩
  rw [← matchAt_isSome rfl (by omega), h4 j h5 h6]
  exact Bool.false_ne_true

theorem indexOfCi_eq {needle : Text} : indexOfCi hc needle i = find (fun k => spelled fold hc needle k) hc.length i := by
  rw [indexOfCi, exec_lit, Option.map_map]
  exact Option.map_id'

def stripMsoConditionals.loop (hc out : Text) (pos lastIndex : Nat) : Text :=
  match _hm : openIf.exec hc lastIndex with
  | none => out ++ hc.drop pos
  | some (i, m) =>
    if hc[skipSpaces hc m.pos]? = some '!'.toNat then loop hc out pos m.pos
    else
      match _hrb : indexOf hc ']'.toNat m.pos with
      | none => out ++ hc.drop pos
      | some rb =>
        if hc[rb + 1]? ≠ some '>'.toNat then loop hc out pos m.pos
        else
          match _he : indexOfCi hc endIf (rb + 2) with
          | none => out ++ hc.drop pos
          | some e => loop hc (out ++ slice hc pos i) (e + endIf.length) (e + endIf.length)
termination_by hc.length + 1 - lastIndex
decreasing_by
  all_goals
    obtain ⟨h1, h2, h3, -⟩ := exec_openIf _hm
  · omega
  · omega
  · have h4 := (indexOf_eq_some.mp _hrb).1
    rw [indexOfCi_eq] at _he
    have h5 := (find_eq_some.mp _he).1
    omega

def stripMsoConditionals (hc : Text) : Text := stripMsoConditionals.loop hc [] 0 0

theorem skipSpaces_spec : All hc isSpace i (skipSpaces hc i) ∧ ¬ (hc[skipSpaces hc i]?).any isSpace = true := by
  have hsplit := List.takeWhile_append_dropWhile (p := isSpace) (l := hc.drop i)
  constructor
  · intro l h1 h2
    obtain ⟨d, rfl⟩ := Nat.exists_eq_add_of_le h1
    rw [skipSpaces] at h2
    have hd : d < ((hc.drop i).takeWhile isSpace).length := by omega
    rw [← List.getElem?_drop, ← hsplit, List.getElem?_append_left hd, List.getElem?_eq_getElem hd, Option.any_some]
    exact List.mem_takeWhile_imp (List.getElem_mem hd)
  · have hget : (hc.drop i)[((hc.drop i).takeWhile isSpace).length]? = ((hc.drop i).dropWhile isSpace).head? := by
      refine (congrArg (·[((hc.drop i).takeWhile isSpace).length]?) hsplit.symm).trans ?_
      rw [List.getElem?_append_right le_rfl, Nat.sub_self, List.head?_eq_getElem?]
    rw [skipSpaces, ← List.getElem?_drop, hget]
    have hhead := List.head?_dropWhile_not isSpace (hc.drop i)
    cases hdrop : (hc.drop i).dropWhile isSpace with
    | nil => exact Bool.false_ne_true
    | cons c rest =>
      rw [hdrop] at hhead
      exact fun h => absurd h (by simpa using hhead)

/-- `\s*!` -/
theorem moves_bang : Moves hc (seqs [spaces, char '!']) i j ↔ hc[skipSpaces hc i]? = some '!'.toNat ∧ j = skipSpaces hc i + 1 := by
  obtain ⟨hall, hnot⟩ : All hc isSpace i (skipSpaces hc i) ∧ ¬ (hc[skipSpaces hc i]?).any isSpace = true := skipSpaces_spec
  have hle : i ≤ skipSpaces hc i := Nat.le_add_right ..
  constructor
  · rintro ⟨l, h1, _, h2, rfl⟩
    obtain ⟨hbang, rfl⟩ := moves_chr.mp h2
    obtain ⟨hil, hall'⟩ := moves_star_one.mp h1
    have hl : l = skipSpaces hc i := by
      rcases Nat.lt_trichotomy l (skipSpaces hc i) with hlt | heq | hlt
      · have hspace := hall l hil hlt
        rw [hbang] at hspace
        exact absurd hspace (by decide)
      · exact heq
      · exact absurd (hall' _ hle hlt) hnot
    rw [← hl]
    exact ⟨hbang, rfl⟩
  · rintro ⟨hbang, rfl⟩
    exact ⟨skipSpaces hc i, moves_star_one.mpr ⟨hle, hall⟩, _, moves_chr.mpr ⟨hbang, rfl⟩, rfl⟩

theorem moves_msoOpen : Moves hc msoOpen i j ↔ Moves hc openIf i (i + 7) ∧ hc[skipSpaces hc (i + 7)]? ≠ some '!'.toNat ∧
    ∃ rb, indexOf hc ']'.toNat (i + 7) = some rb ∧ hc[rb + 1]? = some '>'.toNat ∧ j = rb + 2 := by
  have hahead {l : Nat} : (¬ ∃ e, Moves hc (seqs [spaces, char '!']) l e) ↔ hc[skipSpaces hc l]? ≠ some '!'.toNat :=
    not_congr ⟨fun ⟨_, h⟩ => (moves_bang.mp h).1, fun h => ⟨_, moves_bang.mpr ⟨h, rfl⟩⟩⟩
  have hrest {l : Nat} : Moves hc (seqs [till ']', char ']', char '>']) l j ↔
      ∃ rb, indexOf hc ']'.toNat l = some rb ∧ hc[rb + 1]? = some '>'.toNat ∧ j = rb + 2 := by
    refine moves_until.trans (exists_congr fun rb => and_congr_right fun _ => ⟨?_, ?_⟩)
    · rintro ⟨_, h, rfl⟩
      exact moves_chr.mp h
    · rintro ⟨h, rfl⟩
      exact ⟨_, moves_chr.mpr ⟨h, rfl⟩, rfl⟩
  constructor
  · rintro ⟨l, h1, l', ⟨h2, rfl⟩, h3⟩
    obtain rfl := (moves_openIf.mp h1).2
    exact ⟨h1, hahead.mp h2, hrest.mp h3⟩
  · rintro ⟨h1, h2, h3⟩
    exact ⟨i + 7, h1, i + 7, ⟨hahead.mpr h2, rfl⟩, hrest.mpr h3⟩

theorem matchAt_mso (hi : i ≤ hc.length) (h : Moves hc msoOpen i j) :
    matchAt hc msoConditional i = (indexOfCi hc endIf j).map fun e => State.start (e + endIf.length) := by
  have huniq (j' : Nat) (h' : Moves hc msoOpen i j') : j' = j := by
    obtain ⟨-, -, rb, hrb, -, rfl⟩ := moves_msoOpen.mp h
    obtain ⟨-, -, rb', hrb', -, rfl⟩ := moves_msoOpen.mp h'
    cases hrb.symm.trans hrb'
    rfl
  have hj : j ≤ hc.length := by
    obtain ⟨-, -, rb, -, hgt, rfl⟩ := moves_msoOpen.mp h
    have := (List.getElem?_eq_some_iff.mp hgt).1
    omega
  rw [matchAt, msoConditional, run_append]
  refine (run_moves (r := msoOpen) (by rfl) hi h huniq).trans ?_
  rw [indexOfCi_eq]
  exact run_lazy_lit hj

theorem matchAt_mso_none (hi : i ≤ hc.length) (h : ∀ j, ¬ Moves hc msoOpen i j) : matchAt hc msoConditional i = none := by
  rw [matchAt, msoConditional, run_append]
  exact run_stuck (r := msoOpen) (by rfl) hi h

theorem stripMsoConditionals.loop_eq (out : Text) (pos lastIndex : Nat) :
    loop hc out pos lastIndex =
      out ++ splice (fun _ _ => []) State.pos hc pos (occurrences (matchAt hc msoConditional) State.pos hc.length lastIndex) := by
  induction hd : hc.length + 1 - lastIndex using Nat.strong_induction_on generalizing out pos lastIndex with
  | _ d ih =>
  rw [loop]
  split
  · rename_i hm
    rw [splice_none fun j h1 h2 => matchAt_mso_none h2 fun l hl => ?_]
    have hcand := first_eq_none.mp hm j h1 h2
    rw [← Option.not_isSome_iff_eq_none, matchAt_isSome rfl h2] at hcand
    exact hcand ⟨_, (moves_msoOpen.mp hl).1⟩
  · rename_i i m hm
    obtain ⟨h1, h2, hpos, hcand, hbefore⟩ := exec_openIf hm
    rw [hpos]
    have hskip (j : Nat) (h3 : lastIndex ≤ j) (h4 : j < i) : matchAt hc msoConditional j = none :=
      matchAt_mso_none (by omega) fun l hl => hbefore j h3 h4 ⟨_, (moves_msoOpen.mp hl).1⟩
    -- No opening stands inside another one.
    have hinside (j : Nat) (h3 : i < j) (h4 : j < i + 7) : matchAt hc msoConditional j = none :=
      matchAt_mso_none (by
        have := (List.getElem?_eq_some_iff.mp (spelled_get (moves_openIf.mp hcand).1 h3.le h4).choose_spec.choose_spec.2.1).1
        omega) fun l hl =>
        not_spelled_inside (by decide) (moves_openIf.mp hcand).1 h3 h4 (moves_openIf.mp (moves_msoOpen.mp hl).1).1
    have hnext (h : ∀ j, ¬ Moves hc msoOpen i j) : loop hc out pos (i + 7) = out ++
        splice (fun _ _ => []) State.pos hc pos (occurrences (matchAt hc msoConditional) State.pos hc.length lastIndex) := by
      rw [ih _ (by omega) out pos (i + 7) rfl, occurrences_skip (by omega : lastIndex ≤ i + 7) fun j h3 h4 => ?_]
      rcases Nat.lt_trichotomy j i with hlt | rfl | hlt
      · exact hskip j h3 hlt
      · exact matchAt_mso_none h2 h
      · exact hinside j hlt h4
    have hstop (h : ∀ j, i ≤ j → j ≤ hc.length → matchAt hc msoConditional j = none) : out ++ hc.drop pos = out ++
        splice (fun _ _ => []) State.pos hc pos (occurrences (matchAt hc msoConditional) State.pos hc.length lastIndex) := by
      rw [splice_none fun j h3 h4 => ?_]
      rcases Nat.lt_or_ge j i with hlt | hge
      · exact hskip j h3 hlt
      · exact h j hge h4
    split
    · rename_i hbang
      exact hnext fun j hj => (moves_msoOpen.mp hj).2.1 hbang
    · rename_i hbang
      split
      · rename_i hrb
        refine hstop fun j h3 h4 => matchAt_mso_none h4 fun l hl => ?_
        obtain ⟨-, -, rb, hrb', -⟩ := moves_msoOpen.mp hl
        rw [indexOf, find_none_later hrb (by omega)] at hrb'
        cases hrb'
      · rename_i rb hrb
        have h3 := (indexOf_eq_some.mp hrb).1
        split
        · rename_i hgt
          refine hnext fun j hj => ?_
          obtain ⟨-, -, rb', hrb', hgt', -⟩ := moves_msoOpen.mp hj
          cases hrb.symm.trans hrb'
          exact hgt hgt'
        · rename_i hgt
          rw [not_not] at hgt
          have hopen : Moves hc msoOpen i (rb + 2) := moves_msoOpen.mpr ⟨hcand, hbang, rb, hrb, hgt, rfl⟩
          split
          · -- The bracket of a later candidate is no earlier one.
            rename_i he
            rw [indexOfCi_eq] at he
            refine hstop fun j h4 h5 => ?_
            by_cases hl : ∃ l, Moves hc msoOpen j l
            · obtain ⟨l, hl⟩ := hl
              obtain ⟨-, -, rb', hrb', -, rfl⟩ := moves_msoOpen.mp hl
              have := find_mono hrb (by omega) hrb'
              rw [matchAt_mso h5 hl, indexOfCi_eq, find_none_later he (by omega)]
              rfl
            · exact matchAt_mso_none h5 fun l hl' => hl ⟨l, hl'⟩
          · rename_i e he
            have hmatch : matchAt hc msoConditional i = some (State.start (e + endIf.length)) := by
              rw [matchAt_mso h2 hopen, he]
              rfl
            rw [indexOfCi_eq] at he
            have h4 := (find_eq_some.mp he).1
            rw [ih _ (by omega) _ _ _ rfl, splice_found h1 hskip h2 hmatch (by rw [State.pos_start]; omega), List.append_nil,
              List.append_assoc, State.pos_start]

/-! ## Paired tags -/

/-- The literal that a tag name begins with, as in `/<style\b/gi`: it has no `>`. -/
structure OpenName where
  word : Text
  noEnd : '>'.toNat ∉ word.map fold

namespace OpenName

variable (name : OpenName)

/-- `openNameRe` -/
def re : Regex Nat := seqs [lit fold name.word, boundary isWord]

/-- `<tag\b[^>]*>` -/
def tag : Regex Nat := seqs ([lit fold name.word, boundary isWord] ++ [till '>', char '>'])

end OpenName

/-- `(<tag\b[^>]*>)([\s\S]*?)(</tag>)` -/
def paired (name : OpenName) (close : Text) : Regex Nat :=
  seqs [group 1 name.tag, group 2 (lazyStar (one fun _ => true)), group 3 (lit fold close)]

/-- The texts of one call of `transform`. -/
structure Span where
  opened : Text
  content : Text
  close : Text
deriving DecidableEq

def Span.of (str : Text) (m : State) : Span := ⟨groupText str m 1, groupText str m 2, groupText str m 3⟩

variable {name : OpenName} {str close : Text}

theorem moves_re : Moves str name.re i j ↔
    spelled fold str name.word i = true ∧ atBoundary isWord str (i + name.word.length) = true ∧ j = i + name.word.length := by
  constructor
  · rintro ⟨l, h1, l', ⟨h2, rfl⟩, h3⟩
    obtain ⟨hword, rfl⟩ := moves_lit.mp h1
    exact ⟨hword, h2, h3⟩
  · rintro ⟨h1, h2, rfl⟩
    exact ⟨_, moves_lit.mpr ⟨h1, rfl⟩, _, ⟨h2, rfl⟩, rfl⟩

theorem plain_re : name.re.plain = true := by
  rw [OpenName.re, seqs, List.foldr_cons, plain, plain_lit]
  rfl

theorem plain_tag : name.tag.plain = true := by
  rw [OpenName.tag, List.cons_append, seqs, List.foldr_cons, plain, plain_lit]
  rfl

theorem exec_re {m : State} (h : name.re.exec str i = some (k, m)) :
    i ≤ k ∧ k ≤ str.length ∧ Moves str name.re k (k + name.word.length) ∧ ∀ j, i ≤ j → j < k → ¬ ∃ l, Moves str name.re j l := by
  obtain ⟨h1, h2, h3, h4⟩ := first_eq_some.mp h
  have hmoves := moves_of_matchAt plain_re h2 h3
  have hpos := (moves_re.mp hmoves).2.2
  refine ⟨h1, h2, hpos ▸ hmoves, fun j h5 h6 => ?_⟩
  rw [← matchAt_isSome plain_re (by omega), h4 j h5 h6]
  exact Bool.false_ne_true

/-- The name has no `>`, so the search for it may begin where the tag does. -/
theorem indexOf_behind_name (h : spelled fold str name.word i = true) :
    indexOf str '>'.toNat (i + name.word.length) = indexOf str '>'.toNat i := by
  refine (find_skip (Nat.le_add_right ..) fun j h1 h2 => ?_).symm
  obtain ⟨x, c, hc, hx, hsame⟩ := spelled_get h h1 h2
  rw [decide_eq_false_iff_not, hx, Option.some_inj]
  rintro rfl
  exact name.noEnd (List.mem_map.mpr ⟨c, hc, hsame.symm⟩)

theorem moves_tag : Moves str name.tag i j ↔
    Moves str name.re i (i + name.word.length) ∧ ∃ gt, indexOf str '>'.toNat i = some gt ∧ j = gt + 1 := by
  rw [OpenName.tag, moves_append]
  constructor
  · rintro ⟨l, h1, h2⟩
    obtain ⟨hword, -, rfl⟩ := moves_re.mp h1
    obtain ⟨gt, hgt, rfl⟩ := moves_until.mp h2
    rw [indexOf_behind_name hword] at hgt
    exact ⟨h1, gt, hgt, rfl⟩
  · rintro ⟨h1, gt, hgt, rfl⟩
    rw [← indexOf_behind_name (moves_re.mp h1).1] at hgt
    exact ⟨_, h1, moves_until.mpr ⟨gt, hgt, rfl⟩⟩

/-- The output and the calls of `transform` so far. -/
def scanPaired.loop (str : Text) (name : OpenName) (close : Text) (transform : Span → Text) (out : Text) (calls : List Span) (pos lastIndex : Nat) :
    Text × List Span :=
  match _hm : name.re.exec str lastIndex with
  | none => (out ++ str.drop pos, calls)
  | some (i, _) =>
    match _hgt : indexOf str '>'.toNat i with
    | none => (out ++ str.drop pos, calls)
    | some gt =>
      match _hc : indexOfCi str close (gt + 1) with
      | none => (out ++ str.drop pos, calls)
      | some e =>
        let span : Span := ⟨slice str i (gt + 1), slice str (gt + 1) e, slice str e (e + close.length)⟩
        loop str name close transform (out ++ slice str pos i ++ transform span) (calls ++ [span]) (e + close.length) (e + close.length)
termination_by str.length + 1 - lastIndex
decreasing_by
  obtain ⟨h1, h2, -⟩ := exec_re _hm
  have h3 := (indexOf_eq_some.mp _hgt).1
  rw [indexOfCi_eq] at _hc
  have h4 := (find_eq_some.mp _hc).1
  omega

def scanPaired (str : Text) (name : OpenName) (close : Text) (transform : Span → Text) : Text × List Span :=
  scanPaired.loop str name close transform [] [] 0 0

def pairEnd (i contentStart closeIdx : Nat) (close : Text) : State :=
  ((((State.start contentStart).capture 1 i).goto closeIdx).capture 2 contentStart |>.goto (closeIdx + close.length)).capture 3 closeIdx

theorem span_pairEnd {e c : Nat} : Span.of str (pairEnd i c e close) = ⟨slice str i c, slice str c e, slice str e (e + close.length)⟩ := rfl

theorem matchAt_paired (hi : i ≤ str.length) (h : Moves str name.tag i j) :
    matchAt str (paired name close) i = (indexOfCi str close j).map fun e => pairEnd i j e close := by
  have huniq (j' : Nat) (h' : Moves str name.tag i j') : j' = j := by
    obtain ⟨-, gt, hgt, rfl⟩ := moves_tag.mp h
    obtain ⟨-, gt', hgt', rfl⟩ := moves_tag.mp h'
    cases hgt.symm.trans hgt'
    rfl
  have hj : j ≤ str.length := by
    obtain ⟨-, gt, hgt, rfl⟩ := moves_tag.mp h
    exact indexOf_lt hgt
  have hrun : matchAt str (paired name close) i = run str name.tag (State.start i) fun m =>
      run str (lazyStar (one fun _ => true)) (m.capture 1 i) fun m' =>
        run str (lit fold close) (m'.capture 2 m.pos) fun m'' => some (m''.capture 3 m'.pos) := rfl
  rw [hrun, run_moves plain_tag hi h huniq, run_lazy_any hj, indexOfCi_eq]
  have hcongr : first (fun e => run str (lit fold close) (((((State.start i).goto j).capture 1 i).goto e).capture 2 j) fun m =>
      some (m.capture 3 e)) str.length j =
      first (fun e => if spelled fold str close e = true then some (pairEnd i j e close) else none) str.length j :=
    first_congr fun e _ he => run_lit he
  refine (congrArg (Option.map (·.2)) (hcongr.trans first_ite)).trans ?_
  rw [Option.map_map]
  rfl

theorem matchAt_paired_none (hi : i ≤ str.length) (h : ∀ j, ¬ Moves str name.tag i j) : matchAt str (paired name close) i = none :=
  show run str name.tag (State.start i) _ = none from run_stuck plain_tag hi h

theorem scanPaired.loop_eq (transform : Span → Text) (out : Text) (calls : List Span) (pos lastIndex : Nat) :
    let found := occurrences (matchAt str (paired name close)) State.pos str.length lastIndex
    loop str name close transform out calls pos lastIndex =
      (out ++ splice (fun _ m => transform (.of str m)) State.pos str pos found, calls ++ found.map fun m => .of str m.2) := by
  induction hd : str.length + 1 - lastIndex using Nat.strong_induction_on generalizing out calls pos lastIndex with
  | _ d ih =>
  have hstop (h : ∀ j, lastIndex ≤ j → j ≤ str.length → matchAt str (paired name close) j = none) :
      (out ++ str.drop pos, calls) =
        (out ++ splice (fun _ m => transform (.of str m)) State.pos str pos
          (occurrences (matchAt str (paired name close)) State.pos str.length lastIndex),
        calls ++ (occurrences (matchAt str (paired name close)) State.pos str.length lastIndex).map fun m => .of str m.2) := by
    rw [splice_none h, occurrences_none h, List.map_nil, List.append_nil]
  dsimp only
  rw [loop]
  split
  · rename_i hm
    refine hstop fun j h1 h2 => matchAt_paired_none h2 fun l hl => ?_
    have hcand := first_eq_none.mp hm j h1 h2
    rw [← Option.not_isSome_iff_eq_none, matchAt_isSome plain_re h2] at hcand
    exact hcand ⟨_, (moves_tag.mp hl).1⟩
  · rename_i i _ hm
    obtain ⟨h1, h2, hcand, hbefore⟩ := exec_re hm
    have hskip (j : Nat) (h3 : lastIndex ≤ j) (h4 : j < i) : matchAt str (paired name close) j = none :=
      matchAt_paired_none (by omega) fun l hl => hbefore j h3 h4 ⟨_, (moves_tag.mp hl).1⟩
    split
    · -- Without an end of the tag no later tag has one either.
      rename_i hgt
      refine hstop fun j h3 h4 => ?_
      rcases Nat.lt_or_ge j i with hlt | hge
      · exact hskip j h3 hlt
      · refine matchAt_paired_none h4 fun l hl => ?_
        obtain ⟨-, gt, hgt', -⟩ := moves_tag.mp hl
        rw [indexOf, find_none_later hgt hge] at hgt'
        cases hgt'
    · rename_i gt hgt
      have htag : Moves str name.tag i (gt + 1) := moves_tag.mpr ⟨hcand, gt, hgt, rfl⟩
      have h3 := (indexOf_eq_some.mp hgt).1
      split
      · rename_i he
        rw [indexOfCi_eq] at he
        refine hstop fun j h4 h5 => ?_
        rcases Nat.lt_or_ge j i with hlt | hge
        · exact hskip j h4 hlt
        · by_cases hl : ∃ l, Moves str name.tag j l
          · obtain ⟨l, hl⟩ := hl
            obtain ⟨-, gt', hgt', rfl⟩ := moves_tag.mp hl
            have := find_mono hgt hge hgt'
            rw [matchAt_paired h5 hl, indexOfCi_eq, find_none_later he (by omega)]
            rfl
          · exact matchAt_paired_none h5 fun l hl' => hl ⟨l, hl'⟩
      · rename_i e he
        have hmatch : matchAt str (paired name close) i = some (pairEnd i (gt + 1) e close) := by
          rw [matchAt_paired h2 htag, he]
          rfl
        rw [indexOfCi_eq] at he
        have h4 := (find_eq_some.mp he).1
        have hpos : (pairEnd i (gt + 1) e close).pos = e + close.length := rfl
        rw [ih _ (by omega) _ _ _ _ rfl, splice_found h1 hskip h2 hmatch (by rw [hpos]; omega),
          occurrences_found h1 hskip h2 hmatch (by rw [hpos]; omega), hpos, span_pairEnd, List.map_cons, span_pairEnd]
        simp only [List.append_assoc, List.singleton_append]

end MailExpert.Sanitizer
