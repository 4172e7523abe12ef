import MailExpert.Lib.Blocks
import MailExpert.Lib.Encodings
import MailExpert.Lib.Texts

/-!
# The spam filing rule in the prefilter

The panel splices two blocks into the node's Sieve prefilter: a `require` at the top and the rule at the end. Its own blocks are cut out
first, line by line; the rest is the administrator's and is given back without its first blank lines and the white space at its end
(`Tidied`). A last line that is a marker but for the white space after it becomes a marker by that, and then the text the panel wrote cannot
be read again (`lastLine`).
-/

namespace MailExpert.SpamRule
open Blocks

abbrev Text := List Char

variable {t rest w ws : Text} {l r lines : List Text}

def prefilterSfv : List String := ["SPM", "SKS", "SKB"]

def prefilterAlwaysCat : List String := ["PHSH", "HPHSH", "HPHISH", "MALW", "SPM", "HSPM", "SPOOF", "BULK"]

def header : Text := "X-Forefront-Antispam-Report".toList

def field (name : Text) (values : List Text) : Text :=
  let value := if values.length = 1 then values.headD [] else '(' :: ['|'].intercalate values ++ [')']
  "(^|;)[[:space:]]*".toList ++ name ++ ':' :: value ++ "[[:space:]]*(;|$)".toList

def test (regex : Text) : Text := "header :regex \"".toList ++ header ++ "\" \"".toList ++ regex ++ "\"".toList

def requireBegin : Text := "# BEGIN MailExpert: extensions of the EOP verdict rule (managed by MailExpert, do not edit)".toList
def requireEnd : Text := "# END MailExpert: extensions".toList
def ruleBegin : Text := "# BEGIN MailExpert: EOP verdicts to Junk (managed by MailExpert, do not edit)".toList
def ruleEnd : Text := "# END MailExpert: EOP verdicts".toList

def join (lines : List Text) : Text := ['\n'].intercalate lines

def requireBody : List Text := ["require [\"fileinto\", \"regex\"];".toList]

def requireBlock : Text := join (requireBegin :: (requireBody ++ [requireEnd]))

def ruleBody : List Text := [
  "if anyof (".toList,
  "  ".toList ++ test (field "CAT".toList (prefilterAlwaysCat.map (·.toList))) ++ ",".toList,
  "  allof (".toList,
  "    not ".toList ++ test (field "SFV".toList ["SKQ".toList]) ++ ",".toList,
  "    ".toList ++ test (field "SFV".toList (prefilterSfv.map (·.toList))),
  "  )".toList,
  ") \x7b".toList,
  "  fileinto \"Junk\";".toList,
  "  stop;".toList,
  "\x7d".toList]

def ruleBlock : Text := join (ruleBegin :: (ruleBody ++ [ruleEnd]))

structure MailNodeError where
  code : String
  message : String
  status : Nat
deriving DecidableEq

def markersBroken : MailNodeError where
  code := "prefilter_markers_broken"
  message := "The prefilter on the node holds a MailExpert block without its end marker"
  status := 409

def cutBlocks (begin' end' : Text) (lines : List Text) : Except MailNodeError (List Text) :=
  match _h : lines.idxOf? begin' with
  | none => if end' ∈ lines then .error markersBroken else .ok lines
  | some start =>
    match (lines.drop start).idxOf? end' with
    | none => .error markersBroken
    | some k =>
      -- `to` is `start + k`
      if begin' ∈ (lines.take (start + k)).drop (start + 1) then .error markersBroken
      else cutBlocks begin' end' (lines.take start ++ lines.drop (start + k + 1))
termination_by lines.length
decreasing_by
  obtain ⟨hlt, -⟩ := List.idxOf?_eq_some_iff.mp _h
  simp only [List.length_append, List.length_take, List.length_drop]
  omega

def withoutBlocks (text begin' end' : Text) : Except MailNodeError Text :=
  (cutBlocks begin' end' (text.splitOn '\n')).map join

/-- `.replace(/\r\n?/g, '\n')` -/
def unixLines : Text → Text
  | [] => []
  | [c] => [if c = '\r' then '\n' else c]
  | c :: d :: l => if c = '\r' then '\n' :: (if d = '\n' then unixLines l else unixLines (d :: l)) else c :: unixLines (d :: l)

def isSpace (c : Char) : Bool := Encodings.isSpace c.toNat

/-- `.replace(/^\s*\n/, '')`: `\s*` takes all the white space at the start and gives it back to the last line end. -/
def withoutBlankStart (t : Text) : Text := (t.takeWhile isSpace).rtakeWhile (· ≠ '\n') ++ t.dropWhile isSpace

/-- `.replace(/\s+$/, '')` -/
def withoutSpaceEnd (t : Text) : Text := t.rdropWhile isSpace

def buildPrefilter (existing : Option Text) : Except MailNodeError Text := do
  let text := unixLines (existing.getD [])
  let text ← withoutBlocks text requireBegin requireEnd
  let text ← withoutBlocks text ruleBegin ruleEnd
  let rest := withoutSpaceEnd (withoutBlankStart text)
  return ['\n', '\n'].intercalate ([requireBlock, rest, ruleBlock].filter (· ≠ [])) ++ ['\n']

inductive RuleState
  | ok
  | outdated
  | missing
  | unknown (code : String)
deriving DecidableEq

def spamRuleStateOf (current : Option Text) : RuleState :=
  let text := current.getD []
  match buildPrefilter (some text) with
  | .error err => .unknown err.code
  | .ok built => if built = text then .ok else if ruleBegin ∈ (unixLines text).splitOn '\n' then .outdated else .missing

theorem cutBlocks_eq {begin' end' : Text} (hne : begin' ≠ end') :
    cutBlocks begin' end' lines = (outside begin' end' false lines).elim (.error markersBroken) .ok := by
  fun_induction cutBlocks begin' end' lines with
  | case1 lines h hend =>
    have h' : begin' ∉ lines := List.idxOf?_eq_none_iff.mp h
    rw [← List.append_nil lines, outside_false_mark h' hend]
    rfl
  | case2 lines h hend => rw [outside_of_not_mem (List.idxOf?_eq_none_iff.mp h) hend, Option.elim_some]
  | case3 lines start h hend =>
    obtain ⟨hlines, hdrop, hx⟩ := idxOf?_eq_some h
    rw [hdrop, List.idxOf?_eq_none_iff, List.mem_cons, not_or] at hend
    by_cases hex : end' ∈ lines.take start
    · rw [hlines, outside_false_mark hx hex, Option.elim_none]
    · rw [hlines, hdrop, outside_append (outside_of_not_mem hx hex), outside, if_pos rfl, outside_inside_none hend.2]
      rfl
  | case4 lines start h k hk hnested =>
    obtain ⟨hlines, hx, hy⟩ := idxOf?_pair hne h hk
    rw [hlines]
    by_cases hex : end' ∈ lines.take start
    · rw [outside_false_mark hx hex, Option.elim_none]
    · rw [outside_append (outside_of_not_mem hx hex), outside, if_pos rfl, outside_nested hy hnested]
      rfl
  | case5 lines start h k hk hnested ih =>
    obtain ⟨hlines, hx, hy⟩ := idxOf?_pair hne h hk
    rw [ih]
    conv => rhs; rw [hlines]
    by_cases hex : end' ∈ lines.take start
    · rw [outside_false_mark hx hex, outside_false_mark hx hex]
    · rw [outside_append (outside_of_not_mem hx hex), outside_block hx hex hnested hy]

/-! ## What is trimmed -/

/-- `rest` is `t` without the blank lines at its start and the white space at its end. -/
structure Tidied (t rest : Text) : Prop where
  parts : ∃ w ws, t = w ++ (rest ++ ws) ∧ (∀ c ∈ w, isSpace c) ∧ (∀ c ∈ ws, isSpace c) ∧ (w = [] ∨ ∃ v, w = v ++ ['\n'])
  noBlankStart : ∀ v r, rest = v ++ '\n' :: r → ∃ c ∈ v, ¬isSpace c
  noSpaceEnd : ∀ r c, rest = r ++ [c] → ¬isSpace c

theorem rdropWhile_append_of_pos {p : Char → Bool} (hws : ∀ c ∈ ws, p c) : (t ++ ws).rdropWhile p = t.rdropWhile p := by
  rw [List.rdropWhile, List.reverse_append, List.dropWhile_append_of_pos fun c hc => hws c (List.mem_reverse.mp hc)]
  rfl

theorem rtakeWhile_line {v : Text} (hw : w = [] ∨ ∃ v, w = v ++ ['\n']) (hv : '\n' ∉ v) : (w ++ v).rtakeWhile (· ≠ '\n') = v := by
  rcases hw with rfl | ⟨w, rfl⟩
  · rw [List.nil_append, List.rtakeWhile_eq_self_iff]
    exact fun c hc => by simpa using fun h : c = '\n' => hv (h ▸ hc)
  · rw [List.append_assoc]
    exact Texts.rtakeWhile_append hv

theorem Tidied.eq_append (h : Tidied t rest) (hne : rest ≠ []) : ∃ v c r, rest = v ++ c :: r ∧ (∀ a ∈ v, isSpace a) ∧ '\n' ∉ v ∧ ¬isSpace c := by
  have hdrop : rest.dropWhile isSpace ≠ [] := by
    rw [Ne, List.dropWhile_eq_nil_iff]
    intro hall
    exact h.noSpaceEnd _ _ (List.dropLast_append_getLast hne).symm (hall _ (List.getLast_mem hne))
  obtain ⟨c, r, hcr⟩ := List.exists_cons_of_ne_nil hdrop
  have hrest : rest = rest.takeWhile isSpace ++ c :: r := by rw [← hcr, List.takeWhile_append_dropWhile]
  refine ⟨_, c, r, hrest, fun a ha => List.mem_takeWhile_imp ha, fun hmem => ?_, ?_⟩
  · obtain ⟨v, u, hvu⟩ := List.append_of_mem hmem
    rw [hvu, List.append_assoc] at hrest
    obtain ⟨a, ha, hspace⟩ := h.noBlankStart _ _ hrest
    exact hspace (List.mem_takeWhile_imp (hvu ▸ List.mem_append_left _ ha))
  · have hhead := List.head_dropWhile_not isSpace hdrop
    simp only [hcr, List.head_cons] at hhead
    simp [hhead]

theorem withoutSpaceEnd_of (h : ∀ r c, rest = r ++ [c] → ¬isSpace c) (hws : ∀ c ∈ ws, isSpace c) : withoutSpaceEnd (rest ++ ws) = rest := by
  rw [withoutSpaceEnd, rdropWhile_append_of_pos hws, List.rdropWhile_eq_self_iff]
  exact fun hne => h _ _ (List.dropLast_append_getLast hne).symm

theorem Tidied.eq (h : Tidied t rest) : withoutSpaceEnd (withoutBlankStart t) = rest := by
  obtain ⟨w, ws, rfl, hw, hws, hlast⟩ := h.parts
  by_cases hne : rest = []
  · subst hne
    have hall : ∀ c ∈ w ++ ([] ++ ws), isSpace c := fun c hc => (List.mem_append.mp hc).elim (hw c) (hws c)
    rw [withoutBlankStart, List.dropWhile_eq_nil_iff.mpr hall, List.append_nil, withoutSpaceEnd, List.rdropWhile_eq_nil_iff]
    exact fun c hc => List.mem_takeWhile_imp ((List.rtakeWhile_suffix _ _).mem hc)
  · obtain ⟨v, c, r, hrest, hv, hline, hc⟩ := h.eq_append hne
    have ht : w ++ (rest ++ ws) = (w ++ v) ++ c :: (r ++ ws) := by simp [hrest]
    have hwv : ∀ a ∈ w ++ v, isSpace a := fun a ha => (List.mem_append.mp ha).elim (hw a) (hv a)
    have hstart : withoutBlankStart (w ++ (rest ++ ws)) = rest ++ ws := by
      rw [withoutBlankStart, ht, List.takeWhile_append_of_pos hwv, List.dropWhile_append_of_pos hwv, List.takeWhile_cons_of_neg hc,
        List.dropWhile_cons_of_neg hc, List.append_nil, rtakeWhile_line hlast hline, hrest]
      simp
    rw [hstart, withoutSpaceEnd_of h.noSpaceEnd hws]

theorem tidied (t : Text) : Tidied t (withoutSpaceEnd (withoutBlankStart t)) := by
  have hsplit : (t.takeWhile isSpace).rdropWhile (· ≠ '\n') ++ withoutBlankStart t = t := by
    rw [withoutBlankStart, ← List.append_assoc, List.rdropWhile_append_rtakeWhile, List.takeWhile_append_dropWhile]
  have hend : withoutSpaceEnd (withoutBlankStart t) ++ (withoutBlankStart t).rtakeWhile isSpace = withoutBlankStart t :=
    List.rdropWhile_append_rtakeWhile
  have htake {v r : Text} {c : Char} (h : withoutBlankStart t = v ++ c :: r) (hv : ∀ a ∈ v, isSpace a) (hc : isSpace c) :
      c ∈ (t.takeWhile isSpace).rtakeWhile (· ≠ '\n') := by
    have hpos : ∀ a ∈ (t.takeWhile isSpace).rtakeWhile (· ≠ '\n'), isSpace a :=
      fun a ha => List.mem_takeWhile_imp ((List.rtakeWhile_suffix _ _).mem ha)
    have hnil : (t.dropWhile isSpace).takeWhile isSpace = [] := List.takeWhile_eq_nil_iff.mpr (List.dropWhile_get_zero_not isSpace t)
    have hall := congrArg (List.takeWhile isSpace) h
    rw [withoutBlankStart, List.takeWhile_append_of_pos hpos, hnil, List.append_nil, List.takeWhile_append_of_pos hv,
      List.takeWhile_cons_of_pos hc] at hall
    exact hall ▸ List.mem_append_right _ List.mem_cons_self
  refine ⟨⟨_, _, by rw [hend, hsplit], fun c hc => ?_, fun c hc => List.mem_rtakeWhile_imp hc, ?_⟩, fun v r h => ?_, fun r c h => ?_⟩
  · exact List.mem_takeWhile_imp ((List.rdropWhile_prefix _ _).mem hc)
  · by_cases hne : (t.takeWhile isSpace).rdropWhile (· ≠ '\n') = []
    · exact .inl hne
    · have hlast := List.rdropWhile_last_not _ _ hne
      rw [decide_eq_true_eq, not_not] at hlast
      exact .inr ⟨_, hlast ▸ (List.dropLast_append_getLast hne).symm⟩
  · by_contra hall
    have hv : ∀ c ∈ v, isSpace c := fun c hc => by
      by_contra hspace
      exact hall ⟨c, hc, hspace⟩
    have hstart : withoutBlankStart t = v ++ '\n' :: (r ++ (withoutBlankStart t).rtakeWhile isSpace) := by
      conv => lhs; rw [← hend, h]
      simp
    simpa using List.mem_rtakeWhile_imp (htake hstart hv rfl)
  · have hne : withoutSpaceEnd (withoutBlankStart t) ≠ [] := by simp [h]
    have hlast := List.rdropWhile_last_not isSpace (withoutBlankStart t) hne
    change ¬isSpace ((withoutSpaceEnd (withoutBlankStart t)).getLast hne) at hlast
    simpa only [h, List.getLast_append_singleton] using hlast

/-- The last line that is not blank, without the white space at its end. -/
def lastLine (lines : List Text) : Option Text := (lines.reverse.find? (·.any (!isSpace ·))).map withoutSpaceEnd

theorem lastLine_append {x : Text} {blank : List Text} (hblank : ∀ y ∈ blank, ∀ c ∈ y, isSpace c) (hx : ∃ c ∈ x, ¬isSpace c) :
    lastLine (l ++ x :: blank) = some (withoutSpaceEnd x) := by
  have hnone : blank.reverse.find? (·.any (!isSpace ·)) = none := by
    rw [List.find?_eq_none]
    intro y hy
    simpa using hblank y (List.mem_reverse.mp hy)
  have hany : x.any (!isSpace ·) := by simpa using hx
  rw [lastLine, List.reverse_append, List.reverse_cons, List.append_assoc, List.find?_append, hnone, Option.none_or, List.singleton_append,
    List.find?_cons, hany]
  rfl

theorem splitOn_join (hr : ∀ x ∈ r, '\n' ∉ x) (hne : r ≠ []) : (join r).splitOn '\n' = r := List.splitOn_intercalate _ hr hne

theorem mem_join {x : Text} {c : Char} (hx : x ∈ r) (hc : c ∈ x) : c ∈ join r := by
  induction r with
  | nil => cases hx
  | cons y r ih =>
    cases r with
    | nil =>
      rw [List.mem_singleton] at hx
      rwa [join, List.intercalate_singleton, ← hx]
    | cons z r =>
      rw [join, List.intercalate_cons_cons]
      rcases List.mem_cons.mp hx with rfl | hx
      · exact List.mem_append_left _ (List.mem_append_left _ hc)
      · exact List.mem_append_right _ (ih hx)

/-- The lines of the rest are lines of the text, but for the white space at the end of the last one. -/
theorem Tidied.splitOn (h : Tidied (join r) rest) (hr : ∀ x ∈ r, '\n' ∉ x) :
    rest = [] ∧ lastLine r = none ∨
      rest ≠ [] ∧ ∃ before last, rest.splitOn '\n' = before ++ [last] ∧ (∀ x ∈ before, x ∈ r) ∧ lastLine r = some last := by
  obtain ⟨w, ws, hparts, hw, hws, hline⟩ := h.parts
  by_cases hne : rest = []
  · refine .inl ⟨hne, ?_⟩
    subst hne
    rw [lastLine, Option.map_eq_none_iff, List.find?_eq_none]
    intro x hx
    simp only [List.any_eq_true, Bool.not_eq_true', not_exists, not_and, Bool.not_eq_false]
    intro c hc
    have hmem := mem_join (List.mem_reverse.mp hx) hc
    rw [hparts, List.nil_append] at hmem
    exact (List.mem_append.mp hmem).elim (hw c) (hws c)
  · refine .inr ⟨hne, ?_⟩
    have hr_ne : r ≠ [] := by
      rintro rfl
      have hnil : [] = w ++ (rest ++ ws) := hparts
      simp [hne] at hnil
    obtain ⟨before, last, hrest, happend⟩ := Texts.splitOn_last '\n' rest
    have hlast : '\n' ∉ last := Texts.not_mem_of_mem_splitOn (hrest ▸ List.mem_append_right _ List.mem_cons_self : last ∈ rest.splitOn '\n')
    obtain ⟨v, blank, hsplit⟩ : ∃ v blank, ws.splitOn '\n' = v :: blank := List.exists_cons_of_ne_nil (List.splitOn_ne_nil _ _)
    have hblank : ∀ y ∈ v :: blank, ∀ c ∈ y, isSpace c := fun y hy c hc => hws c (Texts.mem_of_mem_splitOn (hsplit ▸ hy) hc)
    have htail : (rest ++ ws).splitOn '\n' = before ++ (last ++ v) :: blank := by
      rw [happend, Texts.splitOn_append_of_not_mem hlast, hsplit]
      rfl
    obtain ⟨first, hlines⟩ : ∃ first, r = first ++ (before ++ (last ++ v) :: blank) := by
      rw [← splitOn_join hr hr_ne, hparts]
      rcases hline with rfl | ⟨w', rfl⟩
      · exact ⟨[], htail⟩
      · rw [List.append_assoc, List.singleton_append, List.splitOn_append_cons_self, htail]
        exact ⟨_, rfl⟩
    obtain ⟨u, c, hlc, hc⟩ : ∃ u c, last = u ++ [c] ∧ ¬isSpace c := by
      have hrest' : rest = rest.dropLast ++ [rest.getLast hne] := (List.dropLast_append_getLast hne).symm
      have hc := h.noSpaceEnd _ _ hrest'
      obtain ⟨before', u, hu, happend'⟩ := Texts.splitOn_last '\n' rest.dropLast
      have hline : '\n' ∉ u ++ [rest.getLast hne] := by
        rw [List.mem_append, List.mem_singleton, not_or]
        exact ⟨Texts.not_mem_of_mem_splitOn (hu ▸ List.mem_append_right _ List.mem_cons_self : u ∈ rest.dropLast.splitOn '\n'),
          fun h => hc (h ▸ rfl)⟩
      rw [hrest', happend', List.splitOn_eq_singleton hline] at hrest
      exact ⟨u, _, (List.append_singleton_inj.mp hrest).2.symm, hc⟩
    have hend : withoutSpaceEnd (last ++ v) = last :=
      withoutSpaceEnd_of (fun r' c' h' => by
        rw [hlc] at h'
        obtain ⟨-, rfl⟩ := List.append_singleton_inj.mp h'
        exact hc) (hblank v List.mem_cons_self)
    refine ⟨before, last, hrest, fun x hx => hlines ▸ List.mem_append_right _ (List.mem_append_left _ hx), ?_⟩
    rw [hlines, ← List.append_assoc, lastLine_append (fun y hy => hblank y (List.mem_cons_of_mem _ hy))
      ⟨c, List.mem_append_left _ (hlc ▸ List.mem_append_right _ List.mem_cons_self), hc⟩, hend]

/-! ## The prefilter of a text -/

def markers : List Text := [requireBegin, requireEnd, ruleBegin, ruleEnd]

theorem markers_facts : markers.Nodup ∧ (∀ m ∈ markers, '\n' ∉ m ∧ '\r' ∉ m) ∧ [] ∉ markers ∧ ruleBegin ++ [' '] ∉ markers ∧
    ∀ x ∈ requireBody ++ ruleBody, ('\n' ∉ x ∧ '\r' ∉ x) ∧ x ∉ markers := by
  rw [markers, show requireBegin = _ from String.toList_ofList, show requireEnd = _ from String.toList_ofList,
    show ruleBegin = _ from String.toList_ofList, show ruleEnd = _ from String.toList_ofList]
  decide +kernel

theorem nodup_markers : markers.Nodup := markers_facts.1

theorem markers_line : ∀ m ∈ markers, '\n' ∉ m ∧ '\r' ∉ m := markers_facts.2.1

theorem nil_not_mem_markers : [] ∉ markers := markers_facts.2.2.1

theorem rule_blank_not_marker : ruleBegin ++ [' '] ∉ markers := markers_facts.2.2.2.1

theorem body_line : ∀ x ∈ requireBody ++ ruleBody, '\n' ∉ x ∧ '\r' ∉ x := fun x hx => (markers_facts.2.2.2.2 x hx).1

theorem body_not_marker : ∀ x ∈ requireBody ++ ruleBody, x ∉ markers := fun x hx => (markers_facts.2.2.2.2 x hx).2

theorem markers_ne : requireBegin ≠ requireEnd ∧ requireBegin ≠ ruleBegin ∧ requireBegin ≠ ruleEnd ∧ requireEnd ≠ ruleBegin ∧
    requireEnd ≠ ruleEnd ∧ ruleBegin ≠ ruleEnd := by
  have h := nodup_markers
  simp only [markers, List.nodup_cons, List.mem_cons, List.not_mem_nil, or_false, not_or] at h
  exact ⟨h.1.1, h.1.2.1, h.1.2.2, h.2.1.1, h.2.1.2, h.2.2.1⟩

theorem rule_blank : withoutSpaceEnd (withoutBlankStart (join [ruleBegin ++ [' ']])) = ruleBegin := by
  rw [show ruleBegin = _ from String.toList_ofList]
  decide +kernel

attribute [irreducible] requireBegin requireEnd ruleBegin ruleEnd requireBody ruleBody

theorem marker_ne_nil {m : Text} (hm : m ∈ markers) : m ≠ [] := fun h => nil_not_mem_markers (h ▸ hm)

theorem requireBegin_mem : requireBegin ∈ markers := List.mem_cons_self

theorem requireEnd_mem : requireEnd ∈ markers := List.mem_cons_of_mem _ List.mem_cons_self

theorem ruleBegin_mem : ruleBegin ∈ markers := List.mem_cons_of_mem _ (List.mem_cons_of_mem _ List.mem_cons_self)

theorem ruleEnd_mem : ruleEnd ∈ markers := List.mem_cons_of_mem _ (List.mem_cons_of_mem _ (List.mem_cons_of_mem _ List.mem_cons_self))

/-- What is left of the lines without the panel's blocks. -/
def panelOutside (lines : List Text) : Option (List Text) :=
  (outside requireBegin requireEnd false lines).bind (outside ruleBegin ruleEnd false)

/-- The panel's markers pair up in order: those about the `require`, and outside its blocks those about the rule. -/
def Paired (lines : List Text) : Prop :=
  Alternate requireBegin requireEnd lines ∧ ∀ r, outside requireBegin requireEnd false lines = some r → Alternate ruleBegin ruleEnd r

/-- A prefilter around the administrator's text. -/
def spliced (rest : Text) : Text :=
  requireBlock ++ (if rest = [] then [] else '\n' :: '\n' :: rest) ++ '\n' :: '\n' :: ruleBlock ++ ['\n']

theorem require_ne : requireBegin ≠ requireEnd := markers_ne.1

theorem rule_ne : ruleBegin ≠ ruleEnd := markers_ne.2.2.2.2.2

theorem isSome_panelOutside : (panelOutside lines).isSome ↔ Paired lines := by
  rw [panelOutside, Paired, ← isSome_outside require_ne]
  cases outside requireBegin requireEnd false lines with
  | none => simp
  | some r => simp [isSome_outside rule_ne]

theorem withoutBlocks_join {begin' end' : Text} (hne : begin' ≠ end') (hb : begin' ≠ []) (he : end' ≠ []) (hr : ∀ x ∈ r, '\n' ∉ x) :
    withoutBlocks (join r) begin' end' = (outside begin' end' false r).elim (.error markersBroken) fun r => .ok (join r) := by
  by_cases hnil : r = []
  · subst hnil
    have hout : outside begin' end' false [[]] = some [[]] := outside_of_not_mem (by simpa using hb) (by simpa using he)
    rw [withoutBlocks, join, List.intercalate_nil, List.splitOn_nil, cutBlocks_eq hne, hout]
    rfl
  · rw [withoutBlocks, splitOn_join hr hnil, cutBlocks_eq hne]
    cases outside begin' end' false r <;> rfl

theorem intercalate_blocks :
    ['\n', '\n'].intercalate ([requireBlock, rest, ruleBlock].filter (· ≠ [])) ++ ['\n'] = spliced rest := by
  have hrequire : requireBlock ≠ [] := by
    rw [requireBlock, join, List.intercalate_cons_of_ne_nil (List.append_ne_nil_of_right_ne_nil _ (List.cons_ne_nil _ _))]
    simp
  have hrule : ruleBlock ≠ [] := by
    rw [ruleBlock, join, List.intercalate_cons_of_ne_nil (List.append_ne_nil_of_right_ne_nil _ (List.cons_ne_nil _ _))]
    simp
  by_cases hrest : rest = [] <;> simp [hrequire, hrule, hrest, spliced, List.intercalate_cons_cons]

theorem buildPrefilter_eq (existing : Option Text) {text : Text} (htext : unixLines (existing.getD []) = text) :
    buildPrefilter existing = (panelOutside (text.splitOn '\n')).elim (.error markersBroken) fun r =>
      .ok (spliced (withoutSpaceEnd (withoutBlankStart (join r)))) := by
  have hlines : ∀ x ∈ text.splitOn '\n', '\n' ∉ x := fun x hx => Texts.not_mem_of_mem_splitOn hx
  have hjoin : join (text.splitOn '\n') = text := List.intercalate_splitOn _
  have hrequire := withoutBlocks_join require_ne (marker_ne_nil requireBegin_mem) (marker_ne_nil requireEnd_mem) hlines
  rw [hjoin] at hrequire
  rw [buildPrefilter, htext, hrequire, panelOutside]
  cases hout : outside requireBegin requireEnd false (text.splitOn '\n') with
  | none => rfl
  | some r =>
    have hr : ∀ x ∈ r, '\n' ∉ x := fun x hx => hlines x ((outside_sublist hout).mem hx)
    have hrule := withoutBlocks_join rule_ne (marker_ne_nil ruleBegin_mem) (marker_ne_nil ruleEnd_mem) hr
    simp only [Option.elim_some, Option.bind_some, bind, Except.bind, hrule]
    cases outside ruleBegin ruleEnd false r with
    | none => rfl
    | some r => simp only [Option.elim_some, pure, Except.pure, intercalate_blocks]

/-! ## Building again -/

/-- The lines of `rest` between a blank line and another. -/
def middle (rest : Text) : List Text := if rest = [] then [[]] else [] :: (rest.splitOn '\n' ++ [[]])

def splicedLines (rest : Text) : List Text :=
  (requireBegin :: (requireBody ++ [requireEnd])) ++ (middle rest ++ ((ruleBegin :: (ruleBody ++ [ruleEnd])) ++ [[]]))

theorem join_append (hl : l ≠ []) (hr : r ≠ []) : join (l ++ r) = join l ++ '\n' :: join r := by
  induction l with
  | nil => exact absurd rfl hl
  | cons x l ih =>
    cases l with
    | nil =>
      rw [List.singleton_append, join, List.intercalate_cons_of_ne_nil hr]
      simp [join]
    | cons y l =>
      rw [List.cons_append, List.cons_append, join, List.intercalate_cons_cons, ← List.cons_append]
      change x ++ ['\n'] ++ join (y :: l ++ r) = _
      rw [ih (by simp), join, join, join, List.intercalate_cons_cons]
      simp

theorem join_splitOn : join (t.splitOn '\n') = t := List.intercalate_splitOn _

theorem middle_ne_nil : middle rest ≠ [] := by
  rw [middle]
  split_ifs <;> simp

theorem join_middle : join (middle rest) = if rest = [] then [] else '\n' :: (rest ++ ['\n']) := by
  rw [middle]
  split_ifs with h
  · rfl
  · rw [← List.singleton_append, join_append (by simp) (by simp), join_append (List.splitOn_ne_nil '\n' rest) (by simp), join_splitOn]
    rfl

theorem join_splicedLines : join (splicedLines rest) = spliced rest := by
  rw [splicedLines, join_append (by simp) (by simp [middle_ne_nil]), join_append middle_ne_nil (by simp), join_append (by simp) (by simp),
    join_middle, spliced, requireBlock, ruleBlock, show join [[]] = [] from rfl]
  split_ifs <;> simp

theorem isSpace_newline : isSpace '\n' := by decide +kernel

theorem tidied_middle (h : Tidied t rest) : Tidied (join (middle rest ++ [[]])) rest := by
  rw [join_append middle_ne_nil (by simp), join_middle]
  refine ⟨?_, h.noBlankStart, h.noSpaceEnd⟩
  split_ifs with hrest
  · exact ⟨['\n'], [], by simp [hrest, join], by simp [isSpace_newline], by simp, .inr ⟨[], rfl⟩⟩
  · exact ⟨['\n'], ['\n', '\n'], by simp [join], by simp [isSpace_newline], by simp [isSpace_newline], .inr ⟨[], rfl⟩⟩

/-- The lines after the panel's `require`. -/
def afterRequire (rest : Text) : List Text := middle rest ++ ruleBegin :: (ruleBody ++ ruleEnd :: [[]])

theorem not_mem_requireBody {m : Text} (hm : m ∈ markers) : m ∉ requireBody := fun h => body_not_marker m (List.mem_append_left _ h) hm

theorem not_mem_ruleBody {m : Text} (hm : m ∈ markers) : m ∉ ruleBody := fun h => body_not_marker m (List.mem_append_right _ h) hm

theorem panelOutside_eq : panelOutside (splicedLines rest) = (outside requireBegin requireEnd false (afterRequire rest)).bind (outside ruleBegin ruleEnd false) := by
  have hlines : splicedLines rest = requireBegin :: (requireBody ++ requireEnd :: afterRequire rest) := by simp [splicedLines, afterRequire]
  rw [panelOutside, hlines, outside, if_pos rfl, outside_inside (not_mem_requireBody requireBegin_mem) (not_mem_requireBody requireEnd_mem)]

/-- A marker of the `require` comes after it only in the rest. -/
theorem not_mem_afterRequire {m : Text} (hm : m = requireBegin ∨ m = requireEnd) (h : m ∉ middle rest) : m ∉ afterRequire rest := by
  have hmem : m ∈ markers := by
    rcases hm with rfl | rfl
    · exact requireBegin_mem
    · exact requireEnd_mem
  have hne : m ≠ ruleBegin ∧ m ≠ ruleEnd := by
    rcases hm with rfl | rfl
    · exact ⟨markers_ne.2.1, markers_ne.2.2.1⟩
    · exact ⟨markers_ne.2.2.2.1, markers_ne.2.2.2.2.1⟩
  simp [afterRequire, h, hne.1, hne.2, not_mem_ruleBody hmem, marker_ne_nil hmem]

theorem outside_afterRequire (rest : Text) (h : ∀ m, m = requireBegin ∨ m = requireEnd → m ∉ middle rest) :
    outside requireBegin requireEnd false (afterRequire rest) = some (afterRequire rest) :=
  outside_of_not_mem (not_mem_afterRequire (.inl rfl) (h _ (.inl rfl))) (not_mem_afterRequire (.inr rfl) (h _ (.inr rfl)))

/-- Where no line of the rest is a marker, the panel finds its own blocks again. -/
theorem panelOutside_splicedLines (h : ∀ m ∈ markers, m ∉ middle rest) : panelOutside (splicedLines rest) = some (middle rest ++ [[]]) := by
  have hrequire := outside_afterRequire rest (by
    rintro m (rfl | rfl)
    · exact h _ requireBegin_mem
    · exact h _ requireEnd_mem)
  have hblank : outside ruleBegin ruleEnd false [[]] = some [[]] :=
    outside_of_not_mem (by simpa using marker_ne_nil ruleBegin_mem) (by simpa using marker_ne_nil ruleEnd_mem)
  rw [panelOutside_eq, hrequire, Option.bind_some, afterRequire,
    outside_block (h _ ruleBegin_mem) (h _ ruleEnd_mem) (not_mem_ruleBody ruleBegin_mem) (not_mem_ruleBody ruleEnd_mem), hblank]
  rfl

/-- A marker at the end of the rest has no partner. -/
theorem panelOutside_splicedLines_marker {before : List Text} {last : Text} (hne : rest ≠ []) (hrest : rest.splitOn '\n' = before ++ [last])
    (hbefore : ∀ m ∈ markers, m ∉ before) (hlast : last ∈ markers) : panelOutside (splicedLines rest) = none := by
  have hmiddle : middle rest = ([] :: before) ++ last :: [[]] := by simp [middle, hne, hrest]
  have hbefore' : ∀ m ∈ markers, m ∉ [] :: before := fun m hm => by simpa [marker_ne_nil hm] using hbefore m hm
  have hafter : afterRequire rest = ([] :: before) ++ last :: ([] :: ruleBegin :: (ruleBody ++ ruleEnd :: [[]])) := by simp [afterRequire, hmiddle]
  have hkeep (hb : last ≠ requireBegin) (he : last ≠ requireEnd) :
      outside requireBegin requireEnd false (afterRequire rest) = some (afterRequire rest) := by
    refine outside_afterRequire rest fun m hm => ?_
    rcases hm with rfl | rfl
    · simpa [hmiddle, Ne.symm hb, marker_ne_nil requireBegin_mem] using hbefore _ requireBegin_mem
    · simpa [hmiddle, Ne.symm he, marker_ne_nil requireEnd_mem] using hbefore _ requireEnd_mem
  have hlast' : last = requireBegin ∨ last = requireEnd ∨ last = ruleBegin ∨ last = ruleEnd := by simpa [markers] using hlast
  rw [panelOutside_eq]
  rcases hlast' with rfl | rfl | rfl | rfl
  · have hnone : requireEnd ∉ [] :: ruleBegin :: (ruleBody ++ ruleEnd :: [[]]) := by
      simp [markers_ne.2.2.2.1, markers_ne.2.2.2.2.1, not_mem_ruleBody requireEnd_mem, marker_ne_nil requireEnd_mem]
    rw [hafter, outside_append (outside_of_not_mem (hbefore' _ requireBegin_mem) (hbefore' _ requireEnd_mem)), outside, if_pos rfl,
      outside_inside_none hnone]
    rfl
  · have hb : requireBegin ∉ ([] :: before) ++ [requireEnd] := by
      rw [List.mem_append, List.mem_singleton, not_or]
      exact ⟨hbefore' _ requireBegin_mem, require_ne⟩
    rw [hafter, List.append_cons, outside_false_mark hb (List.mem_append_right _ List.mem_cons_self)]
    rfl
  · have he : ruleEnd ∉ [[], ruleBegin] := by simp [marker_ne_nil ruleEnd_mem, Ne.symm rule_ne]
    have hnested : outside ruleBegin ruleEnd true ([[], ruleBegin] ++ (ruleBody ++ ruleEnd :: [[]])) = none :=
      outside_nested he (List.mem_cons_of_mem _ List.mem_cons_self)
    rw [hkeep markers_ne.2.1.symm markers_ne.2.2.2.1.symm, Option.bind_some, hafter,
      outside_append (outside_of_not_mem (hbefore' _ ruleBegin_mem) (hbefore' _ ruleEnd_mem)), outside, if_pos rfl]
    exact congrArg (Option.map _) hnested
  · have hb : ruleBegin ∉ ([] :: before) ++ [ruleEnd] := by
      rw [List.mem_append, List.mem_singleton, not_or]
      exact ⟨hbefore' _ ruleBegin_mem, rule_ne⟩
    rw [hkeep markers_ne.2.2.1.symm markers_ne.2.2.2.2.1.symm, Option.bind_some, hafter, List.append_cons,
      outside_false_mark hb (List.mem_append_right _ List.mem_cons_self)]

/-! ## The line ends -/

theorem unixLines_of_not_mem (h : '\r' ∉ t) : unixLines t = t := by
  fun_induction unixLines t with
  | case1 => rfl
  | case2 c =>
    rw [List.mem_singleton] at h
    rw [if_neg (Ne.symm h)]
  | case3 => exact absurd List.mem_cons_self h
  | case4 c d l hc ih => rw [ih fun hmem => h (List.mem_cons_of_mem _ hmem)]

theorem not_mem_unixLines (t : Text) : '\r' ∉ unixLines t := by
  fun_induction unixLines t with
  | case1 => exact List.not_mem_nil
  | case2 c =>
    rw [List.mem_singleton]
    split_ifs with hc
    · decide
    · exact Ne.symm hc
  | case3 d l ih ih' =>
    refine List.not_mem_cons_of_ne_of_not_mem (by decide) ?_
    split_ifs
    · exact ih
    · exact ih'
  | case4 c d l hc ih => exact List.not_mem_cons_of_ne_of_not_mem (Ne.symm hc) ih

theorem mem_of_mem_join {c : Char} (hc : c ∈ join r) : c = '\n' ∨ ∃ x ∈ r, c ∈ x := by
  induction r with
  | nil => exact absurd hc List.not_mem_nil
  | cons x r ih =>
    by_cases hr : r = []
    · subst hr
      rw [join, List.intercalate_singleton] at hc
      exact .inr ⟨x, List.mem_cons_self, hc⟩
    · rw [← List.singleton_append, join_append (by simp) hr] at hc
      rcases List.mem_append.mp hc with hc | hc
      · rw [join, List.intercalate_singleton] at hc
        exact .inr ⟨x, List.mem_cons_self, hc⟩
      · rcases List.mem_cons.mp hc with rfl | hc
        · exact .inl rfl
        · obtain h | ⟨y, hy, hcy⟩ := ih hc
          · exact .inl h
          · exact .inr ⟨y, List.mem_cons_of_mem _ hy, hcy⟩

theorem splicedLines_line (hrest : '\r' ∉ rest) : ∀ x ∈ splicedLines rest, '\n' ∉ x ∧ '\r' ∉ x := by
  have hmiddle : ∀ x ∈ middle rest, '\n' ∉ x ∧ '\r' ∉ x := by
    intro x hx
    rw [middle] at hx
    split_ifs at hx
    · simp [List.mem_singleton.mp hx]
    · rcases List.mem_cons.mp hx with rfl | hx
      · simp
      · rcases List.mem_append.mp hx with hx | hx
        · exact ⟨Texts.not_mem_of_mem_splitOn hx, fun hc => hrest (Texts.mem_of_mem_splitOn hx hc)⟩
        · simp [List.mem_singleton.mp hx]
  have hrequire := markers_line _ requireBegin_mem
  have hrequireEnd := markers_line _ requireEnd_mem
  have hrule := markers_line _ ruleBegin_mem
  have hruleEnd := markers_line _ ruleEnd_mem
  intro x hx
  simp only [splicedLines, List.mem_append, List.mem_cons, List.not_mem_nil, or_false] at hx
  rcases hx with (rfl | hx | rfl) | hx | (rfl | hx | rfl) | rfl
  · exact hrequire
  · exact body_line x (List.mem_append_left _ hx)
  · exact hrequireEnd
  · exact hmiddle x hx
  · exact hrule
  · exact body_line x (List.mem_append_right _ hx)
  · exact hruleEnd
  · simp

/-- The panel reads its own text as what it wrote. -/
theorem buildPrefilter_spliced (hrest : '\r' ∉ rest) :
    buildPrefilter (some (spliced rest)) = (panelOutside (splicedLines rest)).elim (.error markersBroken) fun r =>
      .ok (spliced (withoutSpaceEnd (withoutBlankStart (join r)))) := by
  have hlines := splicedLines_line hrest
  have hunix : unixLines (spliced rest) = spliced rest := by
    refine unixLines_of_not_mem fun hmem => ?_
    rw [← join_splicedLines] at hmem
    rcases mem_of_mem_join hmem with h | ⟨x, hx, hc⟩
    · exact absurd h (by decide)
    · exact (hlines x hx).2 hc
  have hsplit : (spliced rest).splitOn '\n' = splicedLines rest := by
    rw [← join_splicedLines]
    exact splitOn_join (fun x hx => (hlines x hx).1) (by simp [splicedLines])
  rw [buildPrefilter_eq (some (spliced rest)) hunix, hsplit]

/-- What the panel wrote reads the same again exactly when no line of the rest is a marker. -/
theorem rebuild_iff (h : Tidied (join r) rest) (hcr : '\r' ∉ rest) (hr : ∀ x ∈ r, '\n' ∉ x) (hmarkers : ∀ m ∈ markers, m ∉ r) :
    buildPrefilter (some (spliced rest)) = .ok (spliced rest) ↔ ∀ last, lastLine r = some last → last ∉ markers := by
  rw [buildPrefilter_spliced hcr]
  have hclean (hmiddle : ∀ m ∈ markers, m ∉ middle rest) :
      (panelOutside (splicedLines rest)).elim (.error markersBroken) (fun r =>
        .ok (spliced (withoutSpaceEnd (withoutBlankStart (join r))))) = Except.ok (spliced rest) := by
    rw [panelOutside_splicedLines hmiddle, Option.elim_some, (tidied_middle h).eq]
  rcases h.splitOn hr with ⟨rfl, hlast⟩ | ⟨hne, before, last, hlines, hbefore, hlast⟩
  · rw [hlast]
    refine ⟨fun _ last h => (by cases h), fun _ => hclean fun m hm => ?_⟩
    simpa [middle] using marker_ne_nil hm
  · have hbefore' : ∀ m ∈ markers, m ∉ before := fun m hm hmem => hmarkers m hm (hbefore m hmem)
    rw [hlast]
    refine ⟨fun hok last' h' hmem => ?_, fun hnot => hclean fun m hm => ?_⟩
    · cases h'
      rw [panelOutside_splicedLines_marker hne hlines hbefore' hmem] at hok
      cases hok
    · have hml : m ≠ last := fun h => hnot last rfl (h ▸ hm)
      simp [middle, hne, hlines, marker_ne_nil hm, hbefore' m hm, hml]

theorem not_mem_panelOutside (h : panelOutside lines = some r) : ∀ m ∈ markers, m ∉ r := by
  obtain ⟨r', hr', hr⟩ := Option.bind_eq_some_iff.mp h
  have hrequire := not_mem_outside hr'
  have hrule := not_mem_outside hr
  have hsub := outside_sublist hr
  intro m hm
  simp only [markers, List.mem_cons, List.not_mem_nil, or_false] at hm
  rcases hm with rfl | rfl | rfl | rfl
  · exact fun hmem => hrequire.1 (hsub.mem hmem)
  · exact fun hmem => hrequire.2 (hsub.mem hmem)
  · exact hrule.1
  · exact hrule.2

theorem panelOutside_sublist (h : panelOutside lines = some r) : r.Sublist lines := by
  obtain ⟨r', hr', hr⟩ := Option.bind_eq_some_iff.mp h
  exact (outside_sublist hr).trans (outside_sublist hr')

theorem spamRuleStateOf_eq_ok {current : Option Text} : spamRuleStateOf current = .ok ↔ buildPrefilter current = .ok (current.getD []) := by
  have hsome : buildPrefilter (some (current.getD [])) = buildPrefilter current := by cases current <;> rfl
  rw [spamRuleStateOf, hsome]
  cases buildPrefilter current with
  | error err => simp
  | ok built =>
    simp only [Except.ok.injEq]
    split_ifs with h <;> simp [h]

/-- A prefilter is refused exactly when a marker has no partner in order. Else the panel's `require` comes first and its rule last, and between
them are the lines outside its blocks but for blank lines at the start and white space at the end. Building again gives the same text exactly
when the last line that is not blank is no marker followed by white space. -/
theorem prefilter_spliced (existing : Option Text) :
    (buildPrefilter existing = .error markersBroken ↔ ¬Paired ((unixLines (existing.getD [])).splitOn '\n')) ∧
    (∀ err, buildPrefilter existing = .error err → err = markersBroken) ∧
    (∀ result, buildPrefilter existing = .ok result → ∃ outside rest, panelOutside ((unixLines (existing.getD [])).splitOn '\n') = some outside ∧
      Tidied (join outside) rest ∧ result = spliced rest ∧
      (buildPrefilter (some result) = .ok result ↔ ∀ last, lastLine outside = some last → last ∉ markers)) ∧
    (spamRuleStateOf existing = .ok ↔ buildPrefilter existing = .ok (existing.getD [])) := by
  have hbuild := buildPrefilter_eq existing rfl
  have hcr := not_mem_unixLines (existing.getD [])
  refine ⟨?_, ?_, ?_, spamRuleStateOf_eq_ok⟩
  · rw [← isSome_panelOutside, hbuild]
    cases panelOutside ((unixLines (existing.getD [])).splitOn '\n') <;> simp
  · rw [hbuild]
    cases panelOutside ((unixLines (existing.getD [])).splitOn '\n') with
    | none => exact fun err h => (Except.error.inj h).symm
    | some r => exact fun err h => (by cases h)
  · intro result hresult
    rw [hbuild] at hresult
    cases hout : panelOutside ((unixLines (existing.getD [])).splitOn '\n') with
    | none =>
      rw [hout] at hresult
      cases hresult
    | some r =>
      rw [hout] at hresult
      cases hresult
      have hsub := panelOutside_sublist hout
      have htidied := tidied (join r)
      refine ⟨r, _, rfl, htidied, rfl, rebuild_iff htidied (fun hmem => ?_)
        (fun x hx => Texts.not_mem_of_mem_splitOn (hsub.mem hx)) (not_mem_panelOutside hout)⟩
      have hjoin : '\r' ∈ join r := by
        obtain ⟨w, ws, hparts, -, -, -⟩ := htidied.parts
        rw [hparts]
        exact List.mem_append_right _ (List.mem_append_left _ hmem)
      rcases mem_of_mem_join hjoin with h | ⟨x, hx, hc⟩
      · exact absurd h (by decide)
      · exact hcr (Texts.mem_of_mem_splitOn (hsub.mem hx) hc)

/-- A begin marker with a blank after it is no marker yet, but what is built from it cannot be read again. -/
theorem not_prefilter_spliced : ∃ text result, buildPrefilter (some text) = .ok result ∧ buildPrefilter (some result) = .error markersBroken ∧
    spamRuleStateOf (some result) = .unknown "prefilter_markers_broken" := by
  have hline := markers_line ruleBegin ruleBegin_mem
  have hone {x : Text} (hx : '\n' ∉ x) : x.splitOn '\n' = [x] := by
    simpa [join] using splitOn_join (r := [x]) (by simpa using hx) (List.cons_ne_nil _ _)
  have hblank : '\n' ∉ ruleBegin ++ [' '] ∧ '\r' ∉ ruleBegin ++ [' '] := by simp [hline]
  have hagain : buildPrefilter (some (spliced ruleBegin)) = .error markersBroken := by
    rw [buildPrefilter_spliced hline.2, panelOutside_splicedLines_marker (marker_ne_nil ruleBegin_mem) (hone hline.1) (fun _ _ => List.not_mem_nil) ruleBegin_mem]
    rfl
  refine ⟨ruleBegin ++ [' '], spliced ruleBegin, ?_, hagain, ?_⟩
  · have hout : panelOutside [ruleBegin ++ [' ']] = some [ruleBegin ++ [' ']] := by
      have hne {m : Text} (hm : m ∈ markers) : m ∉ [ruleBegin ++ [' ']] := fun h =>
        rule_blank_not_marker (List.mem_singleton.mp h ▸ hm)
      rw [panelOutside, outside_of_not_mem (hne requireBegin_mem) (hne requireEnd_mem), Option.bind_some,
        outside_of_not_mem (hne ruleBegin_mem) (hne ruleEnd_mem)]
    rw [buildPrefilter_eq (some (ruleBegin ++ [' '])) (unixLines_of_not_mem hblank.2), Option.getD_some, hone hblank.1, hout,
      Option.elim_some, rule_blank]
  · rw [spamRuleStateOf, Option.getD_some, hagain]
    rfl

end MailExpert.SpamRule
