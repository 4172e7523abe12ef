import MailExpert.DraftText.Split
import MailExpert.Lib.Fields

/-!
# A reopened draft

The parts of a draft's text come back as they were put together exactly when nothing before the quote reads as the header of a quote, the signature
holds no delimiter and the quote begins with its header (`split_draft`).
-/

namespace MailExpert.DraftText

open Sanitizer (Text codes)
open Forwarding (trim)
open Fields (takeWhile_append_stop)

variable {l t x y q head body : Text} {line : Text} {σ : Text}

/-- The text that the pattern matches. -/
def Header (x : Text) : Prop :=
  (∃ line, 10 ∉ line ∧ isWroteLine line = true ∧ x = codes "\n\n---\n" ++ line ++ [10]) ∨ ∃ lang, x = codes "\n\n" ++ forwarded lang ++ [10]

theorem takeWhile_line (h : 10 ∉ line) : (line ++ 10 :: t).takeWhile (fun c => decide (c ≠ 10)) = line := by
  rw [takeWhile_append_stop (by decide), List.takeWhile_eq_self_iff]
  exact fun c hc => decide_eq_true fun heq => h (heq ▸ hc)

theorem quoteAt_iff : quoteAt l = true ↔ ∃ x, Header x ∧ x <+: l := by
  have hforward (lang : Lang) : (codes "\n\n" ++ forwarded lang ++ [10]).isPrefixOf l = true ↔ codes "\n\n" ++ forwarded lang ++ [10] <+: l :=
    List.isPrefixOf_iff_prefix
  simp only [quoteAt, Bool.or_eq_true, hforward]
  constructor
  · rintro ((hwrote | hen) | hru)
    · split at hwrote
      next rest hrest =>
        rw [Bool.and_eq_true, decide_eq_true_eq] at hwrote
        obtain ⟨hline, hmem⟩ := hwrote
        rw [List.isPrefixOf?_eq_some_iff_append_eq] at hrest
        obtain ⟨line, after, rfl, hno⟩ := List.eq_append_cons_of_mem hmem
        rw [takeWhile_line hno] at hline
        exact ⟨_, .inl ⟨line, hno, hline, rfl⟩, after, by rw [← hrest]; simp⟩
      next => cases hwrote
    · exact ⟨_, .inr ⟨.en, rfl⟩, hen⟩
    · exact ⟨_, .inr ⟨.ru, rfl⟩, hru⟩
  · rintro ⟨x, ⟨line, hno, hline, rfl⟩ | ⟨lang, rfl⟩, ⟨rest, rfl⟩⟩
    · left; left
      have hstart : (codes "\n\n---\n").isPrefixOf? (codes "\n\n---\n" ++ line ++ [10] ++ rest) = some (line ++ 10 :: rest) := by
        rw [List.isPrefixOf?_eq_some_iff_append_eq]
        simp
      rw [hstart]
      simp only [takeWhile_line hno, hline]
      simp
    · cases lang with
      | en => exact .inl (.inr ⟨rest, rfl⟩)
      | ru => exact .inr ⟨rest, rfl⟩

/-- Two line feeds stand together at the start of a header only. -/
theorem Header.breaks (hx : Header x) (heq : x = y ++ 10 :: 10 :: t) : y = [] := by
  cases y with
  | nil => rfl
  | cons c y =>
    exfalso
    have hinfix : [10, 10] <:+: x.tail := ⟨y, t, by rw [heq]; simp⟩
    obtain ⟨line, hno, hline, rfl⟩ | ⟨lang, rfl⟩ := hx
    · have htail : (codes "\n\n---\n" ++ line ++ [10]).tail = 10 :: 45 :: 45 :: 45 :: 10 :: (line ++ [10]) := rfl
      rw [htail] at hinfix
      have hcount : List.count 10 (line ++ [10]) = 1 := by simp [List.count_eq_zero.mpr hno]
      have hsingle : ¬[10, 10] <:+: line ++ [10] := fun h => by
        have := h.sublist.count_le 10
        rw [hcount] at this
        exact absurd this (by decide)
      have hstart : ¬[10, 10] <+: 10 :: (line ++ [10]) := by
        rintro ⟨rest, hrest⟩
        cases line with
        | nil => exact absurd hline (by decide)
        | cons d line =>
          simp only [List.cons_append, List.cons.injEq, true_and] at hrest
          exact hno (hrest.1 ▸ List.mem_cons_self)
      simp only [List.infix_cons_iff, List.cons_prefix_cons] at hinfix
      simp only [show ¬(10 = 45) by decide, false_and, and_false, false_or, true_and] at hinfix
      obtain h | h := hinfix
      · exact hstart (List.cons_prefix_cons.mpr ⟨rfl, h⟩)
      · exact hsingle h
    · cases lang with
      | en => exact absurd hinfix (by decide)
      | ru => exact absurd hinfix (by decide)

/-- A header that begins before a quote ends at the quote's first line feed. -/
theorem quoteAt_append (hy : y ≠ []) : quoteAt (y ++ 10 :: 10 :: t) = quoteAt (y ++ [10]) := by
  rw [Bool.eq_iff_iff, quoteAt_iff, quoteAt_iff]
  constructor
  · rintro ⟨x, hx, hstart⟩
    refine ⟨x, hx, ?_⟩
    by_cases hlen : x.length ≤ (y ++ [10]).length
    · refine List.prefix_of_prefix_length_le hstart ?_ hlen
      exact ⟨10 :: t, by simp⟩
    · exfalso
      have hlonger : y ++ [10, 10] <+: x := by
        refine List.prefix_of_prefix_length_le ⟨t, by simp⟩ hstart ?_
        simp only [List.length_append, List.length_cons, List.length_nil] at hlen ⊢
        omega
      obtain ⟨rest, hrest⟩ := hlonger
      exact hy (hx.breaks (t := rest) (by rw [← hrest]; simp))
  · rintro ⟨x, hx, hstart⟩
    exact ⟨x, hx, hstart.trans ⟨10 :: t, by simp⟩⟩

theorem splitQuote_append : (splitQuote l).1 ++ (splitQuote l).2 = l := by
  induction l with
  | nil => rfl
  | cons c t ih =>
    rw [splitQuote]
    split
    · rfl
    · rw [List.cons_append, ih]

theorem splitQuote_eq : splitQuote (head ++ q) = (head, q) ↔ (∀ y, y ≠ [] → y <:+ head → quoteAt (y ++ q) = false) ∧ (q = [] ∨ quoteAt q = true) := by
  induction head with
  | nil =>
    have hnil : ∀ y, y ≠ [] → y <:+ ([] : Text) → quoteAt (y ++ q) = false := fun y hy hs => absurd (List.suffix_nil.mp hs) hy
    rw [List.nil_append]
    cases q with
    | nil => exact ⟨fun _ => ⟨hnil, .inl rfl⟩, fun _ => rfl⟩
    | cons c t =>
      rw [splitQuote]
      split
      next hat => exact ⟨fun _ => ⟨hnil, .inr hat⟩, fun _ => rfl⟩
      next hat =>
        constructor
        · intro heq
          cases congrArg Prod.fst heq
        · rintro ⟨-, h | h⟩
          · cases h
          · exact absurd h hat
  | cons c head ih =>
    rw [List.cons_append, splitQuote]
    split
    next hat =>
      constructor
      · intro heq
        cases congrArg Prod.fst heq
      · rintro ⟨hno, -⟩
        have := hno (c :: head) (List.cons_ne_nil _ _) List.suffix_rfl
        rw [List.cons_append, hat] at this
        cases this
    next hat =>
      have hpair : (c :: (splitQuote (head ++ q)).1, (splitQuote (head ++ q)).2) = (c :: head, q) ↔ splitQuote (head ++ q) = (head, q) := by
        rw [Prod.ext_iff, Prod.ext_iff]
        simp
      rw [hpair, ih]
      refine and_congr_left fun _ => ⟨fun hno y hy hs => ?_, fun hno y hy hs => hno y hy (hs.trans (List.suffix_cons c head))⟩
      obtain rfl | hs := List.suffix_cons_iff.mp hs
      · exact Bool.eq_false_iff.mpr hat
      · exact hno y hy hs

theorem splitLast_eq_none {d : Text} (hd : d ≠ []) : splitLast d l = none ↔ ¬d <:+: l := by
  induction l with
  | nil => simp [splitLast, hd]
  | cons c t ih =>
    rw [splitLast, List.infix_cons_iff, not_or, ← ih]
    cases hsplit : splitLast d t with
    | some p => simp
    | none =>
      simp only [Option.map_eq_none_iff, and_true]
      rw [← List.isPrefixOf_iff_prefix, ← List.isSome_isPrefixOf?_eq_isPrefixOf, Option.not_isSome_iff_eq_none]

theorem splitLast_some {d : Text} {p : Text × Text} (hd : d ≠ []) (h : splitLast d l = some p) : p.1 ++ d ++ p.2 = l ∧ ¬d <:+: p.2 := by
  induction l generalizing p with
  | nil => cases h
  | cons c t ih =>
    rw [splitLast] at h
    split at h
    next before after hsplit =>
      cases h
      obtain ⟨heq, hno⟩ := ih hsplit
      exact ⟨congrArg (c :: ·) heq, hno⟩
    next hsplit =>
      obtain ⟨after, hafter, rfl⟩ := Option.map_eq_some_iff.mp h
      have heq : d ++ after = c :: t := (List.isPrefixOf?_eq_some_iff_append_eq.mp hafter).symm ▸ rfl
      have hin : after <:+: t := by
        obtain ⟨c', d', rfl⟩ := List.exists_cons_of_ne_nil hd
        exact ⟨d', [], by simpa using (List.cons.inj heq).2⟩
      exact ⟨heq, fun h => (splitLast_eq_none hd).mp hsplit (h.trans hin)⟩

theorem splitLast_append {d : Text} {p : Text × Text} (h : splitLast d t = some p) : splitLast d (x ++ t) = some (x ++ p.1, p.2) := by
  induction x with
  | nil => exact h
  | cons c x ih => rw [List.cons_append, splitLast, ih]; rfl

theorem splitLast_delimiter (hσ : σ.head? ≠ some 10) (h : ¬delimiter <:+: σ) : splitLast delimiter (delimiter ++ σ) = some ([], σ) := by
  have hlast : splitLast delimiter (10 :: σ) = none := by
    rw [splitLast, (splitLast_eq_none (by decide)).mpr h]
    cases σ with
    | nil => rfl
    | cons c σ =>
      have hc : 10 ≠ c := fun heq => hσ (by rw [heq]; rfl)
      simp [delimiter, codes, List.isPrefixOf?, hc]
  have htail : splitLast delimiter (codes "\n-- \n" ++ σ) = none := by
    have hchars : codes "\n-- \n" ++ σ = 10 :: 45 :: 45 :: 32 :: 10 :: σ := rfl
    rw [hchars, splitLast, splitLast, splitLast, splitLast, hlast]
    rfl
  have hline : delimiter ++ σ = 10 :: (codes "\n-- \n" ++ σ) := rfl
  rw [hline, splitLast, htail, ← hline]
  simp [Fields.isPrefixOf?_append]

/-! ## Drafts -/

abbrev Signature := { σ : Text // σ ≠ [] ∧ trim σ = σ }

/-- What `buildQuote` is given. -/
structure Quoted where
  message : Letter
  kind : Kind
  date : Lang → Text
  date_line : ∀ lang, 10 ∉ date lang
  lang : Lang
  text : Text
  to_ : Text
  cc : Text

def Quoted.quoteMeta (q : Quoted) : QuoteMeta := quoteMetaFor q.message q.kind q.date q.date_line

def Quoted.quotedText (q : Quoted) : Text := DraftText.quotedText q.quoteMeta q.lang q.text q.to_ q.cc

/-- The parts of a draft. Only a body with a signature behind it may hold the delimiter. -/
structure Draft where
  body : Text
  signature : Option Signature
  quote : Option Quoted
  body_plain : signature = none → ¬delimiter <:+: body

/-- The first line of a reply's header is one that the pattern knows. -/
def Quoted.HeaderLine (q : Quoted) : Prop :=
  q.kind = .reply → q.text ≠ [] → isWroteLine ((wrote q.lang (q.date q.lang) q.quoteMeta.sender).takeWhile (· ≠ 10)) = true

namespace Draft

def signatureText (d : Draft) : Option Text := d.signature.map Subtype.val

def quotedBody (d : Draft) : Text := d.quote.elim [] Quoted.quotedText

def text (d : Draft) : Text := textBody d.body d.signatureText d.quotedBody

def beforeQuote (d : Draft) : Text := textBody d.body d.signatureText []

/-- No header of a quote begins before the quote, the signature holds no delimiter, and a reply's header is one line. -/
structure Plain (d : Draft) : Prop where
  before : ∀ y, y ≠ [] → y <:+ d.beforeQuote → quoteAt (y ++ if d.quotedBody = [] then [] else [10]) = false
  signature : ∀ σ ∈ d.signatureText, ¬delimiter <:+: σ
  header : ∀ q ∈ d.quote, q.HeaderLine

end Draft

theorem joinLines_cons {lines : List Text} : joinLines (line :: x :: lines) = line ++ 10 :: joinLines (x :: lines) := by
  simp [joinLines, List.intercalate_cons_cons]

/-- A quote begins with its header when that is one the pattern knows. -/
theorem quoteAt_quotedText (q : Quoted) : (q.quotedText = [] ∨ quoteAt q.quotedText = true) ↔ q.HeaderLine := by
  obtain ⟨message, kind, date, date_line, lang, text, to_, cc⟩ := q
  cases kind with
  | reply =>
    by_cases htext : text = []
    · subst htext
      exact iff_of_true (.inl rfl) fun _ h => absurd rfl h
    · have hquoted : (Quoted.mk message .reply date date_line lang text to_ cc).quotedText = codes "\n\n---\n" ++
          (wrote lang (date lang) (quoteMetaFor message .reply date date_line).sender ++ 10 :: joinLines ((text.splitOn 10).map (codes "> " ++ ·))) := by
        rw [← List.append_assoc]
        exact if_neg htext
      have hen (t : Text) : (codes "\n\n" ++ forwarded .en ++ [10]).isPrefixOf (codes "\n\n---\n" ++ t) = false := rfl
      have hru (t : Text) : (codes "\n\n" ++ forwarded .ru ++ [10]).isPrefixOf (codes "\n\n---\n" ++ t) = false := rfl
      rw [hquoted, quoteAt, hen, hru, Fields.isPrefixOf?_append]
      dsimp only
      rw [takeWhile_append_stop (by decide)]
      simp [Quoted.HeaderLine, htext, Quoted.quoteMeta, codes]
  | forward =>
    refine iff_of_true (.inr ?_) fun h => nomatch h
    have hlines : ∃ lines, quoteHeaderLines (quoteMetaFor message .forward date date_line) lang to_ cc =
        forwarded lang :: labelled (fromLabel lang) (quoteMetaFor message .forward date date_line).sender :: lines := ⟨_, rfl⟩
    obtain ⟨lines, hlines⟩ := hlines
    refine quoteAt_iff.mpr ⟨_, .inr ⟨lang, rfl⟩, joinLines (labelled (fromLabel lang) (quoteMetaFor message .forward date date_line).sender :: lines) ++
      (codes "\n\n" ++ text), ?_⟩
    rw [Quoted.quotedText, quotedText, Quoted.quoteMeta, hlines, joinLines_cons]
    simp [quoteMetaFor]

theorem quotedText_breaks (q : Quoted) : q.quotedText = [] ∨ ∃ t, q.quotedText = 10 :: 10 :: t := by
  obtain ⟨message, kind, date, date_line, lang, text, to_, cc⟩ := q
  cases kind with
  | reply =>
    by_cases htext : text = []
    · subst htext
      exact .inl rfl
    · exact .inr ⟨_, if_neg htext⟩
  | forward => exact .inr ⟨_, rfl⟩

namespace Draft

variable {d : Draft}

theorem text_eq : d.text = d.beforeQuote ++ d.quotedBody := by
  rw [text, beforeQuote]
  cases d.signatureText <;> simp [textBody]

theorem quotedBody_breaks : d.quotedBody = [] ∨ ∃ t, d.quotedBody = 10 :: 10 :: t := by
  rw [quotedBody]
  cases d.quote with
  | none => exact .inl rfl
  | some q => exact quotedText_breaks q

theorem before_iff (y : Text) (hy : y ≠ []) : quoteAt (y ++ d.quotedBody) = quoteAt (y ++ if d.quotedBody = [] then [] else [10]) := by
  obtain h | ⟨t, h⟩ := d.quotedBody_breaks
  · rw [h, if_pos rfl]
  · rw [h, if_neg (List.cons_ne_nil _ _), quoteAt_append hy]

theorem header_iff : (d.quotedBody = [] ∨ quoteAt d.quotedBody = true) ↔ ∀ q ∈ d.quote, q.HeaderLine := by
  rw [quotedBody]
  cases d.quote with
  | none => simp
  | some q => simp [quoteAt_quotedText]

theorem splitQuote_text : splitQuote d.text = (d.beforeQuote, d.quotedBody) ↔
    (∀ y, y ≠ [] → y <:+ d.beforeQuote → quoteAt (y ++ if d.quotedBody = [] then [] else [10]) = false) ∧ ∀ q ∈ d.quote, q.HeaderLine := by
  rw [text_eq, splitQuote_eq, header_iff]
  refine and_congr_left fun _ => ⟨fun h y hy hs => ?_, fun h y hy hs => ?_⟩
  · rw [← before_iff y hy, h y hy hs]
  · rw [before_iff y hy, h y hy hs]

theorem head?_signature (σ : Signature) : σ.1.head? ≠ some 10 := by
  obtain ⟨σ, hne, htrim⟩ := σ
  cases σ with
  | nil => exact absurd rfl hne
  | cons c σ =>
    intro hc
    obtain rfl : c = 10 := by simpa using hc
    have hlen := congrArg List.length htrim
    rw [trim, List.dropWhile_cons_of_pos (by decide)] at hlen
    have h1 := (List.rdropWhile_prefix Encodings.isSpace (σ.dropWhile Encodings.isSpace)).length_le
    have h2 := (List.dropWhile_suffix (l := σ) Encodings.isSpace).length_le
    rw [List.length_cons] at hlen
    omega

theorem splitLast_before : (splitLast delimiter d.beforeQuote = none ∧ d.signature = none) ∨
    ∃ σ, d.signature = some σ ∧ ∃ p, splitLast delimiter d.beforeQuote = some p ∧ (p = (d.body, σ.1) ↔ ¬delimiter <:+: σ.1) := by
  cases hsig : d.signature with
  | none =>
    refine .inl ⟨?_, rfl⟩
    rw [beforeQuote, signatureText, hsig]
    simpa [textBody] using (splitLast_eq_none (by decide)).mpr (d.body_plain hsig)
  | some σ =>
    refine .inr ⟨σ, rfl, ?_⟩
    have hbefore : d.beforeQuote = d.body ++ (delimiter ++ σ.1) := by simp [beforeQuote, signatureText, hsig, textBody]
    rw [hbefore]
    by_cases hin : delimiter <:+: σ.1
    · obtain ⟨p, hp⟩ := Option.ne_none_iff_exists'.mp fun h => (splitLast_eq_none (by decide)).mp h hin
      refine ⟨_, splitLast_append (splitLast_append hp), iff_of_false (fun heq => ?_) (not_not_intro hin)⟩
      have := congrArg List.length (congrArg Prod.fst heq)
      simp only [List.length_append] at this
      have hlen : delimiter.length = 6 := by decide
      omega
    · exact ⟨_, splitLast_append (splitLast_delimiter (head?_signature σ) hin), iff_of_true (by simp) hin⟩

/-- A draft's text is split as it was put together exactly when the draft is plain. -/
theorem split_iff (d : Draft) : splitDraftSignatureText d.text = ⟨d.body, d.signatureText, d.quotedBody⟩ ↔ d.Plain := by
  have hplain : d.Plain ↔ splitQuote d.text = (d.beforeQuote, d.quotedBody) ∧ ∀ σ ∈ d.signatureText, ¬delimiter <:+: σ := by
    rw [splitQuote_text]
    exact ⟨fun h => ⟨⟨h.before, h.header⟩, h.signature⟩, fun h => ⟨h.1.1, h.2, h.1.2⟩⟩
  rw [hplain, splitDraftSignatureText]
  constructor
  · intro heq
    have hquote : (splitQuote d.text).2 = d.quotedBody := by
      dsimp only at heq
      split at heq <;> exact congrArg DraftParts.quote heq
    have hsplit : splitQuote d.text = (d.beforeQuote, d.quotedBody) := by
      refine Prod.ext ?_ hquote
      have happend := splitQuote_append (l := d.text)
      rw [hquote, text_eq] at happend
      rw [text_eq]
      exact List.append_cancel_right happend
    refine ⟨hsplit, fun σ hσ => ?_⟩
    rw [hsplit] at heq
    obtain ⟨-, hnone⟩ | ⟨σ', hsig, p, hp, hiff⟩ := splitLast_before (d := d)
    · rw [signatureText, hnone] at hσ
      cases hσ
    · simp only [hp] at heq
      rw [signatureText, hsig, Option.map_some, Option.mem_some_iff] at hσ
      subst hσ
      refine hiff.mp (Prod.ext (congrArg DraftParts.body heq) ?_)
      have hsignature := congrArg DraftParts.signature heq
      rw [signatureText, hsig] at hsignature
      exact Option.some.inj hsignature
  · rintro ⟨hsplit, hσ⟩
    rw [hsplit]
    obtain ⟨hnone, hsig⟩ | ⟨σ, hsig, p, hp, hiff⟩ := splitLast_before (d := d)
    · simp only [hnone]
      simp [signatureText, hsig, beforeQuote, textBody]
    · have hσ' : ¬delimiter <:+: σ.1 := hσ σ.1 (by rw [signatureText, hsig]; rfl)
      simp only [hp, hiff.mpr hσ']
      rw [signatureText, hsig]
      rfl

end Draft

def reopened (text : Text) : Text :=
  let parts := splitDraftSignatureText text
  textBody parts.body parts.signature parts.quote

/-- The parts come back exactly when the draft is plain, and then its text stays the same however often it is opened and saved. -/
theorem split_draft (d : Draft) :
    (splitDraftSignatureText d.text = ⟨d.body, d.signatureText, d.quotedBody⟩ ↔ d.Plain) ∧ (d.Plain → ∀ n, reopened^[n] d.text = d.text) := by
  refine ⟨d.split_iff, fun hplain n => ?_⟩
  have hfix : reopened d.text = d.text := by
    rw [reopened, d.split_iff.mpr hplain]
    rfl
  exact Function.iterate_fixed hfix n

/-- **Nothing is lost when any text is split**: its parts make it up again, the quote begins at the first header of one, and no delimiter is
left to the signature, or to a body that has none. -/
theorem split_any (text : Text) : ∃ parts, splitDraftSignatureText text = parts ∧
    textBody parts.body parts.signature parts.quote = text ∧ (parts.quote = [] ∨ quoteAt parts.quote = true) ∧
    (∀ y, y ≠ [] → y <:+ textBody parts.body parts.signature [] → quoteAt (y ++ parts.quote) = false) ∧
    ¬delimiter <:+: parts.signature.getD parts.body := by
  have happend := splitQuote_append (l := text)
  obtain ⟨hbefore, hquote⟩ := splitQuote_eq.mp (show splitQuote ((splitQuote text).1 ++ (splitQuote text).2) = _ by rw [happend])
  cases hsplit : splitLast delimiter (splitQuote text).1 with
  | none =>
    exact ⟨⟨_, none, _⟩, by simp [splitDraftSignatureText, hsplit], happend, hquote, by simpa [textBody] using hbefore,
      (splitLast_eq_none (by decide)).mp hsplit⟩
  | some p =>
    obtain ⟨heq, hno⟩ := splitLast_some (by decide) hsplit
    exact ⟨⟨p.1, some p.2, _⟩, by simp [splitDraftSignatureText, hsplit], by rw [textBody, heq, happend], hquote,
      by simpa [textBody, heq] using hbefore, hno⟩

theorem sample_facts : (codes "Anna" ≠ [] ∧ trim (codes "Anna") = codes "Anna") ∧ 10 ∉ codes "May 1" ∧ ¬delimiter <:+: codes "\n\n---\nOn x wrote:\n" ∧
    codes "Anna\n\n-- \nPhone" ≠ [] ∧ trim (codes "Anna\n\n-- \nPhone") = codes "Anna\n\n-- \nPhone" := by decide

theorem sampleSignature_trimmed : codes "Anna" ≠ [] ∧ trim (codes "Anna") = codes "Anna" := sample_facts.1

theorem sampleDate_line : ∀ _ : Lang, 10 ∉ codes "May 1" := fun _ => sample_facts.2.1

def sampleQuote : Quoted where
  message := ⟨codes "Ivan", codes "ivan@example.com", codes "Hello"⟩
  kind := .reply
  date := fun _ => codes "May 1"
  date_line := sampleDate_line
  lang := .en
  text := codes "Dear Anna"
  to_ := []
  cc := []

theorem sampleBody_plain : some (⟨codes "Anna", sampleSignature_trimmed⟩ : Signature) = none → ¬delimiter <:+: codes "Hi" := fun h => nomatch h

def sampleDraft : Draft := ⟨codes "Hi", some ⟨codes "Anna", sampleSignature_trimmed⟩, some sampleQuote, sampleBody_plain⟩

theorem split_draft_sample : splitDraftSignatureText sampleDraft.text = ⟨codes "Hi", some (codes "Anna"), sampleQuote.quotedText⟩ ∧
    reopened^[3] sampleDraft.text = sampleDraft.text := by
  obtain ⟨hbefore, hheader⟩ := Draft.splitQuote_text.mp (show splitQuote sampleDraft.text = (sampleDraft.beforeQuote, sampleDraft.quotedBody) by decide)
  have hplain : sampleDraft.Plain := ⟨hbefore, fun σ hσ => by
    obtain rfl : codes "Anna" = σ := Option.some.inj hσ
    decide, hheader⟩
  exact ⟨(split_draft sampleDraft).1.mpr hplain, (split_draft sampleDraft).2 hplain 3⟩

theorem pastedBody_plain : (none : Option Signature) = none → ¬delimiter <:+: codes "\n\n---\nOn x wrote:\n" := fun _ => sample_facts.2.2.1

/-- A letter's text that holds the lines of a quote's header. -/
def pastedDraft : Draft := ⟨codes "\n\n---\nOn x wrote:\n", none, none, pastedBody_plain⟩

theorem twoParts_trimmed : codes "Anna\n\n-- \nPhone" ≠ [] ∧ trim (codes "Anna\n\n-- \nPhone") = codes "Anna\n\n-- \nPhone" := sample_facts.2.2.2

theorem twoParts_plain : some (⟨codes "Anna\n\n-- \nPhone", twoParts_trimmed⟩ : Signature) = none → ¬delimiter <:+: codes "Hi" := fun h => nomatch h

/-- A signature that holds the delimiter. -/
def twoPartsDraft : Draft := ⟨codes "Hi", some ⟨codes "Anna\n\n-- \nPhone", twoParts_trimmed⟩, none, twoParts_plain⟩

/-- The body becomes a quote; part of the signature becomes body. -/
theorem split_draft_moved : splitDraftSignatureText pastedDraft.text = ⟨[], none, pastedDraft.body⟩ ∧
    splitDraftSignatureText pastedDraft.text ≠ ⟨pastedDraft.body, none, []⟩ ∧
    splitDraftSignatureText twoPartsDraft.text = ⟨codes "Hi\n\n-- \nAnna", some (codes "Phone"), []⟩ ∧
    splitDraftSignatureText twoPartsDraft.text ≠ ⟨codes "Hi", some (codes "Anna\n\n-- \nPhone"), []⟩ := by
  decide

end MailExpert.DraftText
