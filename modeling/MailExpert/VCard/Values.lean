import Mathlib

/-!
# Values of a vCard

`escapeValue` and `unescapeValue` of `utils/vcard.js`. Each replacement that unescapes undoes the one that escaped, but the first of
them also takes an escaped backslash before an `n` for a line break (`unescapeValue_escapeValue_iff`).
-/

namespace MailExpert.VCard

/-- `text.replace(/a/g, r)` -/
def replaceChar (a : Char) (r l : List Char) : List Char := l.flatMap fun c => if c = a then r else [c]

/-- `text.replace(/\\p/g, r)`, with a `p` of one character. -/
def replaceEscaped (p : Char → Bool) (r : Char) : List Char → List Char
  | [] => []
  | [c] => [c]
  | c :: d :: l => if c = '\\' ∧ p d then r :: replaceEscaped p r l else c :: replaceEscaped p r (d :: l)

def escapeValue (str : List Char) : List Char :=
  replaceChar '\r' [] (replaceChar '\n' ['\\', 'n'] (replaceChar ',' ['\\', ','] (replaceChar ';' ['\\', ';'] (replaceChar '\\' ['\\', '\\'] str))))

def isN (c : Char) : Bool := c = 'n' || c = 'N'

def unescapeValue (str : List Char) : List Char :=
  replaceEscaped (· = '\\') '\\' (replaceEscaped (· = ';') ';' (replaceEscaped (· = ',') ',' (replaceEscaped isN '\n' str)))

/-- What the first replacement does not take for a line break. -/
def Plain (c d : Char) : Prop := c = '\\' → isN d = false

variable {p : Char → Bool} {a c r : Char} {l s : List Char}

theorem replaceChar_cons : replaceChar a s (c :: l) = (if c = a then s else [c]) ++ replaceChar a s l := rfl

theorem replaceEscaped_cons (h : c = '\\' → ∀ d ∈ l.head?, p d = false) : replaceEscaped p r (c :: l) = c :: replaceEscaped p r l := by
  cases l with
  | nil => rfl
  | cons d l => rw [replaceEscaped, if_neg fun hc => by simpa [hc.2] using h hc.1]

theorem replaceEscaped_pair (h : p c = true) : replaceEscaped p r ('\\' :: c :: l) = r :: replaceEscaped p r l := by
  rw [replaceEscaped, if_pos ⟨rfl, h⟩]

/-- What is escaped begins with a backslash, or as it did. -/
theorem head?_replaceChar (l : List Char) : ∀ d ∈ (replaceChar a ['\\', c] l).head?, d = '\\' ∨ d ≠ a ∧ d ∈ l.head? := by
  cases l with
  | nil => nofun
  | cons d l =>
    by_cases hd : d = a <;> simp [replaceChar_cons, hd]

theorem replaceEscaped_replaceChar : replaceEscaped (· = a) a (replaceChar a ['\\', a] l) = l := by
  induction l with
  | nil => rfl
  | cons c l ih =>
    rw [replaceChar_cons]
    split
    · next h => exact (replaceEscaped_pair (by simp)).trans (congrArg₂ _ h.symm ih)
    · next h =>
      refine (replaceEscaped_cons fun hc d hd => ?_).trans (congrArg _ ih)
      rcases head?_replaceChar l d hd with rfl | ⟨hne, -⟩
      · simpa [hc, eq_comm] using h
      · simpa using hne

/-- The line breaks that were escaped come back. -/
theorem replaceEscaped_lineBreaks : replaceEscaped isN '\n' (replaceChar '\n' ['\\', 'n'] l) = replaceEscaped isN '\n' l := by
  fun_induction replaceEscaped isN '\n' l with
  | case1 => rfl
  | case2 c => by_cases hc : c = '\n' <;> simp [replaceChar, hc, replaceEscaped, isN]
  | case3 c d l h ih =>
    obtain ⟨rfl, hd⟩ := h
    have hne : d ≠ '\n' := by
      rintro rfl
      exact absurd hd (by decide)
    simp only [replaceChar_cons, hne, if_false]
    exact (replaceEscaped_pair hd).trans (congrArg _ ih)
  | case4 c d l h ih =>
    rw [replaceChar_cons]
    split
    · next hc => exact (replaceEscaped_pair rfl).trans (congrArg₂ _ hc.symm ih)
    · refine (replaceEscaped_cons fun hc e he => ?_).trans (congrArg _ ih)
      rcases head?_replaceChar _ e he with rfl | ⟨-, he⟩
      · rfl
      · obtain rfl := Option.some.inj he
        simpa [hc] using h

theorem replaceEscaped_plain (h : l.IsChain Plain) : replaceEscaped isN '\n' l = l := by
  induction l with
  | nil => rfl
  | cons c l ih =>
    obtain ⟨hc, hl⟩ := List.isChain_cons.mp h
    rw [replaceEscaped_cons fun h d hd => hc d hd h, ih hl]

/-- Each pair that it takes for a line break is one more line break. -/
theorem count_lineBreaks : l.count '\n' ≤ (replaceEscaped isN '\n' l).count '\n' ∧
    ((replaceEscaped isN '\n' l).count '\n' = l.count '\n' → l.IsChain Plain) := by
  fun_induction replaceEscaped isN '\n' l with
  | case1 => simp
  | case2 => simp
  | case3 c d l h ih => grind [isN]
  | case4 c d l h ih =>
    have hplain : Plain c d := fun hc => by simpa [hc] using h
    grind

theorem count_replaceEscaped (hp : p '\n' = false) (hr : r ≠ '\n') : (replaceEscaped p r l).count '\n' = l.count '\n' := by
  fun_induction replaceEscaped p r l with grind

theorem count_replaceChar (ha : a ≠ '\n') : (replaceChar a ['\\', a] l).count '\n' = l.count '\n' := by
  induction l with grind [replaceChar_cons, replaceChar]

theorem isChain_replaceChar (ha : isN a = false) : (replaceChar a ['\\', a] l).IsChain Plain ↔ l.IsChain Plain := by
  induction l with
  | nil => rfl
  | cons c l ih =>
    have hhead : (∀ d ∈ (replaceChar a ['\\', a] l).head?, Plain c d) ↔ ∀ d ∈ l.head?, Plain c d := by
      cases l with
      | nil => rfl
      | cons d l => by_cases hd : d = a <;> simp [replaceChar_cons, hd, Plain, ha, show isN '\\' = false from rfl]
    rw [replaceChar_cons, List.isChain_cons, ← hhead, ← ih]
    by_cases hc : c = a <;> simp [hc, List.isChain_cons, Plain, ha]

theorem mem_of_mem_replaceEscaped (hr : c ≠ r) (h : c ∈ replaceEscaped p r l) : c ∈ l := by
  fun_induction replaceEscaped p r l with grind

/-- The value with all but its line breaks escaped. -/
def marked (str : List Char) : List Char := replaceChar ',' ['\\', ','] (replaceChar ';' ['\\', ';'] (replaceChar '\\' ['\\', '\\'] str))

theorem escapeValue_eq {str : List Char} (h : '\r' ∉ str) : escapeValue str = replaceChar '\n' ['\\', 'n'] (marked str) := by
  have hno : '\r' ∉ replaceChar '\n' ['\\', 'n'] (marked str) := by
    simp only [marked, replaceChar, List.mem_flatMap]
    grind
  exact (List.flatMap_congr fun c hc => if_neg fun heq : c = '\r' => hno (heq ▸ hc)).trans (List.flatMap_singleton' _)

theorem cr_not_mem (str : List Char) : '\r' ∉ unescapeValue (escapeValue str) := by
  intro hmem
  have hescaped : '\r' ∈ escapeValue str := mem_of_mem_replaceEscaped (by decide) <| mem_of_mem_replaceEscaped (by decide) <|
    mem_of_mem_replaceEscaped (by decide) <| mem_of_mem_replaceEscaped (by decide) hmem
  obtain ⟨c, -, hc⟩ := List.mem_flatMap.mp hescaped
  split at hc
  · cases hc
  · next hne => exact hne (List.mem_singleton.mp hc).symm

/-- **A value comes back** when it has no CR, and no backslash before an `n`. -/
theorem unescapeValue_escapeValue_iff (str : List Char) : unescapeValue (escapeValue str) = str ↔
    '\r' ∉ str ∧ str.IsChain fun c d => c = '\\' → d ≠ 'n' ∧ d ≠ 'N' := by
  have hplain : (fun c d => c = '\\' → d ≠ 'n' ∧ d ≠ 'N') = Plain := by
    funext c d
    simp [Plain, isN]
  have hchain : (marked str).IsChain Plain ↔ str.IsChain Plain := by
    rw [marked, isChain_replaceChar rfl, isChain_replaceChar rfl, isChain_replaceChar rfl]
  rw [hplain, ← hchain]
  constructor
  · intro h
    have hno : '\r' ∉ str := fun hmem => cr_not_mem str (by rwa [h])
    refine ⟨hno, count_lineBreaks.2 ?_⟩
    rw [unescapeValue, escapeValue_eq hno, replaceEscaped_lineBreaks] at h
    have hcount := congrArg (List.count '\n') h
    rw [count_replaceEscaped rfl (by decide), count_replaceEscaped rfl (by decide), count_replaceEscaped rfl (by decide)] at hcount
    rw [hcount, marked, count_replaceChar (by decide), count_replaceChar (by decide), count_replaceChar (by decide)]
  · rintro ⟨hno, h⟩
    rw [unescapeValue, escapeValue_eq hno, replaceEscaped_lineBreaks, replaceEscaped_plain h, marked, replaceEscaped_replaceChar,
      replaceEscaped_replaceChar, replaceEscaped_replaceChar]

end MailExpert.VCard
