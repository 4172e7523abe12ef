import MailExpert.MailQueue.Postcat

/-!
# What a dump gives back

While no line of the message text has the form of a section line, the lines of each part come back under their own section.
-/

namespace MailExpert.MailQueue

open Encodings (isSpace)
open Sanitizer (Text codes)
open Forwarding (trim isBlank stripCr)

variable {file : QueueFile} {record : Record} {line x y : Text} {lines : List Text} {section_ : Section} {reading : Reading} {where_ : Text}

theorem dropCrLf_cons {c : Nat} (h : c = 13 → x.head? ≠ some 10) : dropCrLf (c :: x) = c :: dropCrLf x := by
  conv_lhs => unfold dropCrLf
  split
  next heq =>
    cases heq
    exact absurd rfl (h rfl)
  next heq =>
    cases heq
    rfl
  next heq => cases heq

theorem dropCrLf_line (h : 10 ∉ line) : dropCrLf (line ++ 10 :: x) = stripCr line ++ 10 :: dropCrLf x := by
  induction line with
  | nil => exact dropCrLf_cons fun h => by cases h
  | cons c line ih =>
    rw [List.mem_cons, not_or] at h
    have ih := ih h.2
    cases line with
    | nil =>
      by_cases hc : c = 13
      · subst hc
        rfl
      · rw [List.cons_append, dropCrLf_cons fun h => absurd h hc, List.nil_append, dropCrLf_cons fun h => by cases h]
        simp [stripCr, hc]
    | cons d line =>
      rw [List.cons_append, dropCrLf_cons fun _ heq => h.2 (by simp only [List.cons_append, List.head?_cons, Option.some.injEq] at heq; simp [heq]), ih]
      simp only [stripCr, List.getLast?_cons_cons, List.dropLast_cons_cons]
      split <;> rfl

/-- The text of some lines, each with its end. -/
def text (lines : List Text) : Text := (lines.map (· ++ [10])).flatten

theorem text_cons : text (line :: lines) = line ++ 10 :: text lines := by simp [text]

theorem dropCrLf_text (h : ∀ line ∈ lines, 10 ∉ line) : dropCrLf (text lines) = text (lines.map stripCr) := by
  induction lines with
  | nil => rfl
  | cons line lines ih =>
    rw [text_cons, dropCrLf_line (h line List.mem_cons_self), ih fun l hl => h l (List.mem_cons_of_mem _ hl), List.map_cons, text_cons]

theorem splitOn_text (h : ∀ line ∈ lines, 10 ∉ line) : (text lines).splitOn 10 = lines ++ [[]] := by
  induction lines with
  | nil => rfl
  | cons line lines ih =>
    rw [text_cons, List.splitOn_append_cons_self_of_not_mem (h line List.mem_cons_self), ih fun l hl => h l (List.mem_cons_of_mem _ hl)]
    rfl

theorem not_mem_stripCr (h : 10 ∉ line) : 10 ∉ stripCr line := by
  unfold stripCr
  split
  · exact fun hmem => h (List.mem_of_mem_dropLast hmem)
  · exact h

theorem whereOf_sectionLine (h : where_ ≠ [] ∧ where_.all fun c => !isSpace c) : whereOf (sectionLine section_ where_) section_ = some where_ := by
  have hwhere : ((sectionLine section_ where_).drop (stars ++ 32 :: section_.title ++ [32]).length).take
      ((sectionLine section_ where_).length - (stars ++ 32 :: section_.title ++ [32]).length - (32 :: stars).length) = where_ := by
    have hline : sectionLine section_ where_ = (stars ++ 32 :: section_.title ++ [32]) ++ (where_ ++ 32 :: stars) := by simp [sectionLine]
    rw [hline, List.drop_left, List.length_append, Nat.add_sub_cancel_left, List.length_append, Nat.add_sub_cancel, List.take_left]
  simp only [whereOf, hwhere]
  rw [if_pos ⟨by simp [sectionLine], h⟩]

theorem whereOf_ne (h : whereOf line section_ = some where_) : line = sectionLine section_ where_ := by
  simp only [whereOf, Option.ite_none_right_eq_some, Option.some.injEq] at h
  obtain ⟨⟨hline, -⟩, rfl⟩ := h
  conv_lhs => rw [hline]
  simp [sectionLine]

/-- No section's line is another one's. -/
theorem sectionLine_inj {section' : Section} {where' : Text} (h : sectionLine section_ where_ = sectionLine section' where') : section_ = section' := by
  have hhead := congrArg (List.take 20) h
  cases section_ <;> cases section' <;> first | rfl | (exfalso; revert hhead; simp [sectionLine, stars, Section.title, codes])

theorem sectionOf_sectionLine (h : where_ ≠ [] ∧ where_.all fun c => !isSpace c) : sectionOf (sectionLine section_ where_) = some (section_, where_) := by
  have hother : ∀ section', section' ≠ section_ → whereOf (sectionLine section_ where_) section' = none := fun section' hne =>
    Option.eq_none_iff_forall_not_mem.mpr fun where' hmem => hne (sectionLine_inj (whereOf_ne hmem)).symm
  cases section_ <;> simp [sectionOf, whereOf_sectionLine h, hother]

theorem sectionOf_eq_none (h : line.head? ≠ some 42) : sectionOf line = none := by
  have hnone : ∀ section_, whereOf line section_ = none := fun section_ => Option.eq_none_iff_forall_not_mem.mpr fun where_ hmem => by
    rw [whereOf_ne hmem] at h
    exact h rfl
  simp [sectionOf, hnone]

/-! ## The lines of each section -/

theorem Reading.line_section (h : where_ ≠ [] ∧ where_.all fun c => !isSpace c) :
    reading.line (sectionLine section_ where_) = { reading with current := some section_, where_ := some (reading.where_.getD where_) } := by
  rw [Reading.line, sectionOf_sectionLine h]

theorem Reading.lines_plain (hcurrent : reading.current = some section_) (h : ∀ line ∈ lines, sectionOf line = none) :
    lines.foldl Reading.line reading = { reading with sections := Function.update reading.sections section_ (reading.sections section_ ++ lines) } := by
  induction lines generalizing reading with
  | nil => simp
  | cons line lines ih =>
    have hline : reading.line line = { reading with sections := Function.update reading.sections section_ (reading.sections section_ ++ [line]) } := by
      rw [Reading.line, h line List.mem_cons_self, hcurrent]
    rw [List.foldl_cons, hline, @ih { reading with sections := Function.update reading.sections section_ (reading.sections section_ ++ [line]) } hcurrent fun l hl => h l (List.mem_cons_of_mem _ hl)]
    simp

theorem Reading.block (hplaced : where_ ≠ [] ∧ where_.all fun c => !isSpace c) (h : ∀ line ∈ lines, sectionOf line = none) :
    (sectionLine section_ where_ :: lines).foldl Reading.line reading = {
      current := some section_
      where_ := some (reading.where_.getD where_)
      sections := Function.update reading.sections section_ (reading.sections section_ ++ lines) } := by
  rw [List.foldl_cons, Reading.line_section hplaced]
  exact Reading.lines_plain rfl h

theorem stripCr_sectionLine : stripCr (sectionLine section_ where_) = sectionLine section_ where_ := by
  have hlast : (sectionLine section_ where_).getLast? = some 42 := by
    rw [show sectionLine section_ where_ = (stars ++ 32 :: section_.title ++ 32 :: where_ ++ [32]) ++ stars by simp [sectionLine], List.getLast?_append]
    rfl
  rw [stripCr, hlast, if_neg (by decide)]

theorem head_print : ∀ c ∈ (stripCr record.print).head?, isNameChar c = true := by
  obtain ⟨c, name, hname⟩ := List.exists_cons_of_ne_nil record.named.1
  have hc : isNameChar c = true := List.all_eq_true.mp record.named.2 c (hname ▸ List.mem_cons_self)
  have hhead : (stripCr record.print).head? = some c := by
    rw [stripCr, Record.print, hname]
    split
    · rw [List.cons_append, List.dropLast_cons_of_ne_nil (by simp)]
      rfl
    · rfl
  rw [hhead]
  rintro _ ⟨⟩
  exact hc

theorem sectionOf_print : sectionOf (stripCr record.print) = none := by
  refine sectionOf_eq_none fun h => ?_
  have := @head_print record 42 h
  simp [isNameChar] at this

theorem not_mem_print : 10 ∉ record.print := by
  intro h
  rcases List.mem_append.mp h with h | h
  · have := List.all_eq_true.mp record.named.2 10 h
    simp [isNameChar] at this
  · simp only [List.mem_cons] at h
    rcases h with h | h | h
    · cases h
    · cases h
    · exact record.line h

theorem not_mem_sectionLine (h : where_ ≠ [] ∧ where_.all fun c => !isSpace c) : 10 ∉ sectionLine section_ where_ := by
  intro hmem
  simp only [sectionLine, List.mem_append, List.mem_cons] at hmem
  have hwhere : 10 ∉ where_ := fun hin => by
    have := List.all_eq_true.mp h.2 10 hin
    simp [isSpace] at this
  have htitle : 10 ∉ section_.title := by cases section_ <;> decide
  have hstars : 10 ∉ stars := by decide
  simp [hwhere, htitle, hstars] at hmem

/-- What a line that is no section line adds to its section. -/
def readOf (file : QueueFile) : Reading where
  current := some .messageFileEnd
  where_ := some file.where_
  sections := fun
    | .envelopeRecords => file.records.map fun record => stripCr record.print
    | .messageContents => file.message.map stripCr
    | .headerExtracted => file.extracted.map fun record => stripCr record.print
    | .messageFileEnd => [[]]

theorem lines_of_dump : (dropCrLf file.dump).splitOn 10 =
    sectionLine .envelopeRecords file.where_ :: (file.records.map fun record => stripCr record.print) ++
      sectionLine .messageContents file.where_ :: file.message.map stripCr ++
      sectionLine .headerExtracted file.where_ :: (file.extracted.map fun record => stripCr record.print) ++
      [sectionLine .messageFileEnd file.where_, []] := by
  have hlines : ∀ line ∈ file.lines', 10 ∉ line := fun line hline => by
    simp only [QueueFile.lines', List.cons_append, List.append_assoc, List.mem_cons, List.mem_append, List.mem_map, List.not_mem_nil, or_false] at hline
    rcases hline with rfl | ⟨r, -, rfl⟩ | rfl | h | rfl | ⟨r, -, rfl⟩ | rfl
    · exact not_mem_sectionLine file.placed
    · exact not_mem_print
    · exact not_mem_sectionLine file.placed
    · exact file.lines line h
    · exact not_mem_sectionLine file.placed
    · exact not_mem_print
    · exact not_mem_sectionLine file.placed
  have hstripped : ∀ line ∈ file.lines'.map stripCr, 10 ∉ line := fun line hline => by
    obtain ⟨l, hl, rfl⟩ := List.mem_map.mp hline
    exact not_mem_stripCr (hlines l hl)
  rw [show file.dump = text file.lines' from rfl, dropCrLf_text hlines, splitOn_text hstripped]
  simp [QueueFile.lines', stripCr_sectionLine, Function.comp_def]

theorem reading_of_dump (h : ∀ line ∈ file.message, sectionOf (stripCr line) = none) :
    ((dropCrLf file.dump).splitOn 10).foldl Reading.line {} = readOf file := by
  have hrecords : ∀ records : List Record, ∀ line ∈ records.map fun record => stripCr record.print, sectionOf line = none := fun records line hline => by
    obtain ⟨record, -, rfl⟩ := List.mem_map.mp hline
    exact sectionOf_print
  have hmessage : ∀ line ∈ file.message.map stripCr, sectionOf line = none := fun line hline => by
    obtain ⟨l, hl, rfl⟩ := List.mem_map.mp hline
    exact h l hl
  rw [lines_of_dump, List.foldl_append, List.foldl_append, List.foldl_append, Reading.block file.placed (hrecords _),
    Reading.block file.placed hmessage, Reading.block file.placed (hrecords _), Reading.block file.placed fun line hline => List.mem_singleton.mp hline ▸ sectionOf_eq_none (by simp)]
  simp only [readOf, Option.getD_none, Option.getD_some, Reading.mk.injEq, true_and]
  funext section_
  cases section_ <;> simp [Function.update]

/-! ## The envelope -/

variable {toLowerCase : Text → Text} {records : List Record} {pairs : List (Text × Text)} {envelope : Envelope} {a : Text}
  {withBody truncated : Bool}

def Record.address (toLowerCase : Text → Text) (record : Record) : Text := toLowerCase (trim record.value)

theorem stripCr_print : ∃ rest, stripCr record.print = record.name ++ 58 :: rest := by
  unfold stripCr
  split
  · rw [Record.print, List.dropLast_append_of_ne_nil (by simp), List.dropLast_cons_of_ne_nil (by simp)]
    exact ⟨_, rfl⟩
  · exact ⟨_, rfl⟩

theorem recordOf_append {rest : Text} : recordOf (record.name ++ 58 :: rest) =
    if (rest.dropWhile isSpace).any isLineEnd then none else some (record.name, rest.dropWhile isSpace) := by
  have htake : (record.name ++ 58 :: rest).takeWhile isNameChar = record.name := by
    rw [List.takeWhile_append_of_pos fun c hc => List.all_eq_true.mp record.named.2 c hc]
    simp [isNameChar]
  simp only [recordOf, htake, List.drop_left, record.named.1, false_or]

/-- A line of another kind, whatever its value. -/
theorem recordOf_name {p : Text × Text} (h : recordOf (stripCr record.print) = some p) : p.1 = record.name := by
  obtain ⟨rest, hrest⟩ := @stripCr_print record
  rw [hrest, recordOf_append] at h
  split at h <;> cases h
  rfl

theorem recordOf_print (h : record.value.all fun c => !isLineEnd c) :
    recordOf (stripCr record.print) = some (record.name, record.value.dropWhile isSpace) := by
  have hlast : record.print.getLast? ≠ some 13 := fun hlast => by
    have hmem := List.mem_of_getLast? hlast
    simp only [Record.print, List.mem_append, List.mem_cons] at hmem
    rcases hmem with hmem | hmem | hmem | hmem
    · have := List.all_eq_true.mp record.named.2 13 hmem
      simp [isNameChar] at this
    · cases hmem
    · cases hmem
    · have := List.all_eq_true.mp h 13 hmem
      simp [isLineEnd] at this
  have hany : (record.value.dropWhile isSpace).any isLineEnd = false := List.any_eq_false.mpr fun c hc => by
    simpa using List.all_eq_true.mp h c ((List.dropWhile_sublist _).mem hc)
  rw [stripCr, if_neg hlast, Record.print, recordOf_append, List.dropWhile_cons_of_pos (by decide), hany, if_neg Bool.false_ne_true]

theorem trim_dropWhile : trim (x.dropWhile isSpace) = trim x := by
  rw [trim, trim, List.dropWhile_idempotent]

/-- `sender` and the two kinds of recipients. -/
def kinds : List Text := [codes "sender", codes "recipient", codes "done_recipient"]

theorem mem_addAddress {list : List Text} {value : Text} :
    a ∈ addAddress toLowerCase list value ↔ a ∈ list ∨ a ≠ [] ∧ toLowerCase (trim value) = a := by
  simp only [addAddress]
  split
  next h =>
    refine ⟨.inl, fun hor => hor.elim id fun ⟨hne, heq⟩ => ?_⟩
    subst heq
    exact h.resolve_left hne
  next h =>
    rw [not_or] at h
    simp only [List.mem_append, List.mem_singleton]
    refine or_congr_right ⟨fun heq => ?_, fun heq => heq.2.symm⟩
    subst heq
    exact ⟨h.1, rfl⟩

theorem kinds_ne : codes "sender" ≠ codes "recipient" ∧ codes "sender" ≠ codes "done_recipient" ∧ codes "recipient" ≠ codes "done_recipient" := by
  decide

theorem addRecord_sender {p : Text × Text} :
    (addRecord toLowerCase envelope p).sender = envelope.sender.or (if p.1 = codes "sender" then some (toLowerCase p.2) else none) := by
  unfold addRecord
  split
  next h => cases envelope.sender <;> rfl
  next h =>
    rw [Option.or_none]
    split
    · rfl
    split
    · rfl
    split <;> rfl

theorem mem_addRecord_recipients {p : Text × Text} : a ∈ (addRecord toLowerCase envelope p).recipients ↔
    a ∈ envelope.recipients ∨ p.1 = codes "recipient" ∧ a ≠ [] ∧ toLowerCase (trim p.2) = a := by
  unfold addRecord
  split
  next h => exact ⟨.inl, fun hor => hor.elim id fun hp => absurd (h.symm.trans hp.1) kinds_ne.1⟩
  next h =>
    split
    next h =>
      refine mem_addAddress.trans (or_congr_right ?_)
      exact ⟨fun hp => ⟨h, hp⟩, fun hp => hp.2⟩
    next h =>
      have hsame : a ∈ envelope.recipients ↔ a ∈ envelope.recipients ∨ p.1 = codes "recipient" ∧ a ≠ [] ∧ toLowerCase (trim p.2) = a :=
        ⟨.inl, fun hor => hor.elim id fun hp => absurd hp.1 h⟩
      split
      · exact hsame
      split <;> exact hsame

theorem mem_addRecord_doneRecipients {p : Text × Text} : a ∈ (addRecord toLowerCase envelope p).doneRecipients ↔
    a ∈ envelope.doneRecipients ∨ p.1 = codes "done_recipient" ∧ a ≠ [] ∧ toLowerCase (trim p.2) = a := by
  unfold addRecord
  split
  next h => exact ⟨.inl, fun hor => hor.elim id fun hp => absurd (h.symm.trans hp.1) kinds_ne.2.1⟩
  next h =>
    split
    next h => exact ⟨.inl, fun hor => hor.elim id fun hp => absurd (h.symm.trans hp.1) kinds_ne.2.2⟩
    next h =>
      split
      next h =>
        refine mem_addAddress.trans (or_congr_right ?_)
        exact ⟨fun hp => ⟨h, hp⟩, fun hp => hp.2⟩
      next h =>
        have hsame : a ∈ envelope.doneRecipients ↔ a ∈ envelope.doneRecipients ∨ p.1 = codes "done_recipient" ∧ a ≠ [] ∧ toLowerCase (trim p.2) = a :=
          ⟨.inl, fun hor => hor.elim id fun hp => absurd hp.1 h⟩
        split <;> exact hsame

/-- What the records of some lines leave in an envelope. -/
theorem fold_sender : (pairs.foldl (addRecord toLowerCase) envelope).sender =
    envelope.sender.or ((pairs.find? fun p => p.1 = codes "sender").map fun p => toLowerCase p.2) := by
  induction pairs generalizing envelope with
  | nil => simp
  | cons p pairs ih =>
    rw [List.foldl_cons, ih, addRecord_sender, Option.or_assoc, List.find?_cons]
    by_cases hp : p.1 = codes "sender"
    · rw [if_pos hp, decide_eq_true hp]
      rfl
    · rw [if_neg hp, decide_eq_false hp]
      rfl

theorem mem_fold_recipients : a ∈ (pairs.foldl (addRecord toLowerCase) envelope).recipients ↔
    a ∈ envelope.recipients ∨ ∃ p ∈ pairs, p.1 = codes "recipient" ∧ a ≠ [] ∧ toLowerCase (trim p.2) = a := by
  induction pairs generalizing envelope with
  | nil => simp
  | cons p pairs ih =>
    rw [List.foldl_cons, ih, mem_addRecord_recipients, or_assoc, List.exists_mem_cons_iff]

theorem mem_fold_doneRecipients : a ∈ (pairs.foldl (addRecord toLowerCase) envelope).doneRecipients ↔
    a ∈ envelope.doneRecipients ∨ ∃ p ∈ pairs, p.1 = codes "done_recipient" ∧ a ≠ [] ∧ toLowerCase (trim p.2) = a := by
  induction pairs generalizing envelope with
  | nil => simp
  | cons p pairs ih =>
    rw [List.foldl_cons, ih, mem_addRecord_doneRecipients, or_assoc, List.exists_mem_cons_iff]

/-- The values of the records that name addresses are single lines. -/
def Whole (records : List Record) : Prop := ∀ record ∈ records, record.name ∈ kinds → record.value.all fun c => !isLineEnd c

def pairsOf (records : List Record) : List (Text × Text) := (records.map fun record => stripCr record.print).filterMap recordOf

theorem exists_pair {kind : Text} (hkind : kind ∈ kinds) (h : Whole records) :
    (∃ p ∈ pairsOf records, p.1 = kind ∧ a ≠ [] ∧ toLowerCase (trim p.2) = a) ↔
      a ≠ [] ∧ ∃ record ∈ records, record.name = kind ∧ record.address toLowerCase = a := by
  simp only [pairsOf, List.filterMap_map, List.mem_filterMap, Function.comp_apply]
  constructor
  · rintro ⟨p, ⟨record, hmem, hp⟩, hname, hne, ha⟩
    have hrecord : record.name = kind := (recordOf_name hp).symm.trans hname
    rw [recordOf_print (h record hmem (hrecord ▸ hkind))] at hp
    cases hp
    exact ⟨hne, record, hmem, hrecord, by rwa [trim_dropWhile] at ha⟩
  · rintro ⟨hne, record, hmem, hname, ha⟩
    refine ⟨_, ⟨record, hmem, recordOf_print (h record hmem (hname ▸ hkind))⟩, hname, hne, ?_⟩
    rwa [trim_dropWhile]

theorem find_sender (h : Whole records) : ((pairsOf records).find? fun p => p.1 = codes "sender").map (fun p => toLowerCase p.2) =
    (records.find? fun record => record.name = codes "sender").map fun record => toLowerCase (record.value.dropWhile isSpace) := by
  induction records with
  | nil => rfl
  | cons record records ih =>
    have ih := ih fun r hr => h r (List.mem_cons_of_mem _ hr)
    rw [List.find?_cons]
    by_cases hname : record.name = codes "sender"
    · have hpairs : pairsOf (record :: records) = (record.name, record.value.dropWhile isSpace) :: pairsOf records := by
        rw [pairsOf, List.map_cons, List.filterMap_cons_some (recordOf_print (h record List.mem_cons_self (hname ▸ List.mem_cons_self)))]
        rfl
      rw [hpairs, List.find?_cons, decide_eq_true hname]
      rfl
    · rw [decide_eq_false hname]
      cases hrecord : recordOf (stripCr record.print) with
      | none =>
        rw [pairsOf, List.map_cons, List.filterMap_cons_none hrecord]
        exact ih
      | some p =>
        rw [pairsOf, List.map_cons, List.filterMap_cons_some hrecord, List.find?_cons, decide_eq_false (recordOf_name hrecord ▸ hname)]
        exact ih

/-! ## A section line in the body -/

/-- The lines behind the first empty one. -/
def afterBlank (content : List Text) : List Text := content.drop ((headerLines content).length + 1)

theorem afterBlank_nil_cons : afterBlank ([] :: lines) = lines := rfl

theorem afterBlank_cons (h : line ≠ []) : afterBlank (line :: lines) = afterBlank lines := by
  simp [afterBlank, headerLines, h]

theorem afterBlank_filter {p : Text → Bool} (hp : p [] = true) : afterBlank (lines.filter p) = (afterBlank lines).filter p := by
  induction lines with
  | nil => rfl
  | cons line lines ih =>
    by_cases hline : line = []
    · rw [hline, List.filter_cons_of_pos hp, afterBlank_nil_cons, afterBlank_nil_cons]
    · rw [afterBlank_cons hline]
      by_cases hpl : p line = true
      · rw [List.filter_cons_of_pos hpl, afterBlank_cons hline, ih]
      · rw [List.filter_cons_of_neg hpl, ih]

theorem afterBlank_sublist {lines' : List Text} (h : lines'.Sublist lines) : (afterBlank lines').Sublist (afterBlank lines) := by
  induction h with
  | slnil => exact .slnil
  | @cons lines' lines line h ih =>
    by_cases hline : line = []
    · rw [hline, afterBlank_nil_cons]
      exact (List.drop_sublist _ _).trans h
    · rw [afterBlank_cons hline]
      exact ih
  | @cons_cons lines' lines line h ih =>
    by_cases hline : line = []
    · rw [hline, afterBlank_nil_cons, afterBlank_nil_cons]
      exact h
    · rw [afterBlank_cons hline, afterBlank_cons hline]
      exact ih

/-- A section gets lines that are no section lines. -/
theorem Reading.sections_sublist : ∃ kept : List Text, (lines.foldl Reading.line reading).sections section_ = reading.sections section_ ++ kept ∧
    kept.Sublist (lines.filter fun line => (sectionOf line).isNone) := by
  induction lines generalizing reading with
  | nil => exact ⟨[], by simp, .slnil⟩
  | cons line lines ih =>
    obtain ⟨kept, hkept, hsub⟩ := @ih (reading.line line)
    rw [List.foldl_cons, hkept]
    cases hline : sectionOf line with
    | some p =>
      rw [List.filter_cons_of_neg (by simp [hline])]
      exact ⟨kept, by simp [Reading.line, hline], hsub⟩
    | none =>
      rw [List.filter_cons_of_pos (by simp [hline])]
      cases hcurrent : reading.current with
      | none => exact ⟨kept, by simp [Reading.line, hline, hcurrent], hsub.cons _⟩
      | some section' =>
        by_cases hsection : section_ = section'
        · exact ⟨line :: kept, by simp [Reading.line, hline, hcurrent, hsection], hsub.cons_cons _⟩
        · exact ⟨kept, by simp [Reading.line, hline, hcurrent, hsection], hsub.cons _⟩

theorem utf8_lineEnd : utf8 (10 :: y) = 10 :: utf8 y := by
  rw [utf8.eq_def]
  rfl

/-- No character goes over a line end. -/
theorem utf8_append : utf8 (x ++ 10 :: y) = utf8 x ++ 10 :: utf8 y := by
  fun_induction utf8 x with
  | case1 => exact utf8_lineEnd
  | case2 c rest h ih =>
    rw [List.cons_append, utf8.eq_def]
    simp only [if_pos h, ih, List.cons_append]
  | case3 c rest h h' ih =>
    rw [List.cons_append, utf8.eq_def]
    simp only [if_neg h, if_pos h', ih, List.cons_append]
  | case4 c h h' h'' d rest hd code ih =>
    rw [List.cons_append, List.cons_append, utf8.eq_def]
    simp only [if_neg h, if_neg h', if_pos h'', if_pos hd, ih, List.cons_append]
    rfl
  | case5 c h h' h'' d rest hd ih =>
    rw [List.cons_append, List.cons_append, utf8.eq_def]
    simp only [if_neg h, if_neg h', if_pos h'', if_neg hd]
    rw [← List.cons_append, ih]
    rfl
  | case6 c h h' h'' =>
    rw [List.cons_append, List.nil_append, utf8.eq_def]
    simp only [if_neg h, if_neg h', if_pos h'', show ¬(0xdc00 ≤ 10 ∧ 10 < 0xe000) by decide, if_false, utf8_lineEnd]
    rfl
  | case7 c rest h h' h'' hlow ih =>
    rw [List.cons_append, utf8.eq_def]
    simp only [if_neg h, if_neg h', if_neg h'', if_pos hlow, ih, List.cons_append]
  | case8 c rest h h' h'' hlow ih =>
    rw [List.cons_append, utf8.eq_def]
    simp only [if_neg h, if_neg h', if_neg h'', if_neg hlow, ih, List.cons_append]

theorem byteLength_append : byteLength (x ++ 10 :: y) = byteLength x + 1 + byteLength y := by
  rw [byteLength, utf8_append, List.length_append, List.length_cons, byteLength, byteLength]
  omega

theorem byteLength_pos (h : x ≠ []) : 0 < byteLength x := by
  obtain ⟨c, rest, rfl⟩ := List.exists_cons_of_ne_nil h
  unfold byteLength utf8
  split
  · simp
  split
  · simp
  split
  · split
    · split <;> simp
    · simp
  split <;> simp

/-- The bytes of some lines, each with its end. -/
def weight (lines : List Text) : Nat := (lines.map fun line => byteLength line + 1).sum

theorem byteLength_intercalate (h : lines ≠ []) : byteLength ([10].intercalate lines) + 1 = weight lines := by
  induction lines with
  | nil => exact absurd rfl h
  | cons line lines ih =>
    cases lines with
    | nil => simp [weight, List.intercalate]
    | cons line' lines =>
      have hcons : [10].intercalate (line :: line' :: lines) = line ++ 10 :: [10].intercalate (line' :: lines) := by simp [List.intercalate]
      have ih := ih (List.cons_ne_nil _ _)
      have hweight : weight (line :: line' :: lines) = byteLength line + 1 + weight (line' :: lines) := by simp [weight]
      rw [hcons, byteLength_append, hweight, ← ih]
      omega

theorem weight_sublist {lines' : List Text} (h : lines'.Sublist lines) : weight lines' ≤ weight lines :=
  (h.map _).sum_le_sum fun _ _ => Nat.zero_le _

/-- A body that lost a line is shorter. -/
theorem byteLength_lt {kept : List Text} {p : Text → Bool} (hkept : kept.Sublist (lines.filter p)) (hmem : line ∈ lines) (hp : p line = false)
    (hline : line ≠ []) : byteLength ([10].intercalate kept) < byteLength ([10].intercalate lines) := by
  have hlines : byteLength ([10].intercalate lines) + 1 = weight lines := byteLength_intercalate (List.ne_nil_of_mem hmem)
  have hfilter : weight (lines.filter p) + (byteLength line + 1) ≤ weight lines := by
    obtain ⟨A, B, rfl⟩ := List.append_of_mem hmem
    rw [List.filter_append, List.filter_cons_of_neg (by simp [hp])]
    have hA := weight_sublist (List.filter_sublist (p := p) (l := A))
    have hB := weight_sublist (List.filter_sublist (p := p) (l := B))
    simp only [weight, List.map_append, List.sum_append, List.map_cons, List.sum_cons] at hA hB ⊢
    omega
  have hle := weight_sublist hkept
  have hpos := byteLength_pos hline
  cases kept with
  | nil =>
    have hzero : byteLength ([10].intercalate ([] : List Text)) = 0 := rfl
    omega
  | cons l kept =>
    have hk := byteLength_intercalate (List.cons_ne_nil l kept)
    omega

/-! ## The whole dump -/

/-- No line of the message text is a section line, and the addresses of the records are single lines. -/
structure QueueFile.Plain (file : QueueFile) : Prop where
  message : ∀ line ∈ file.message, sectionOf (stripCr line) = none
  records : Whole (file.records ++ file.extracted)

/-- A file's own content, with each line end as one. -/
structure Correct (toLowerCase : Text → Text) (file : QueueFile) (withBody : Bool) (result : Result) : Prop where
  sender : result.envelope.sender = ((file.records ++ file.extracted).find? fun record => record.name = codes "sender").map fun record =>
    toLowerCase (record.value.dropWhile isSpace)
  recipients : ∀ a, a ∈ result.envelope.recipients ↔
    (a ≠ [] ∧ ∃ record ∈ file.records ++ file.extracted, record.name = codes "recipient" ∧ record.address toLowerCase = a) ∧
      ¬∃ record ∈ file.records ++ file.extracted, record.name = codes "done_recipient" ∧ record.address toLowerCase = a
  headers : result.headers = parseHeaders (headerLines (file.message.map stripCr))
  bodyBytes : result.bodyBytes = byteLength (bodyText (file.message.map stripCr))
  body : result.body = if withBody then
    some (if MAX_BODY_BYTES < byteLength (bodyText (file.message.map stripCr)) then cutBody (bodyText (file.message.map stripCr))
      else bodyText (file.message.map stripCr)) else none

theorem infix_dump : codes "*** ENVELOPE RECORDS" <:+: file.dump := by
  refine ⟨[], 32 :: file.where_ ++ 32 :: stars ++ 10 :: text (file.records.map Record.print ++
    sectionLine .messageContents file.where_ :: file.message ++ sectionLine .headerExtracted file.where_ :: file.extracted.map Record.print ++
      [sectionLine .messageFileEnd file.where_]), ?_⟩
  have htitle : codes "*** ENVELOPE RECORDS" = stars ++ 32 :: Section.envelopeRecords.title := by decide
  rw [htitle, show file.dump = text file.lines' from rfl, QueueFile.lines', List.cons_append, List.cons_append, List.cons_append, List.cons_append, List.cons_append, text_cons]
  simp [sectionLine]

theorem parse_plain (h : file.Plain) (withBody truncated : Bool) :
    ∃ result, parsePostcat toLowerCase file.dump withBody truncated = some result ∧ Correct toLowerCase file withBody result := by
  rw [parsePostcat, if_neg (not_not.mpr infix_dump), reading_of_dump h.message]
  refine ⟨_, rfl, ?_⟩
  have hpairs : ((readOf file).sections .envelopeRecords ++ (readOf file).sections .headerExtracted).filterMap recordOf =
      pairsOf (file.records ++ file.extracted) := by
    rw [pairsOf, List.map_append]
    rfl
  refine ⟨?_, fun a => ?_, rfl, rfl, ?_⟩
  · simp only [hpairs, envelopeOf, fold_sender, Option.none_or]
    exact find_sender h.records
  · simp only [hpairs, envelopeOf, List.mem_filter, decide_eq_true_eq, mem_fold_recipients, mem_fold_doneRecipients, List.not_mem_nil, false_or,
      exists_pair (by decide : codes "recipient" ∈ kinds) h.records, exists_pair (by decide : codes "done_recipient" ∈ kinds) h.records]
    exact ⟨fun hp => ⟨hp.1, fun hd => hp.2 ⟨hp.1.1, hd⟩⟩, fun hp => ⟨hp.1, fun hd => hp.2 hd.2⟩⟩
  · simp only [decide_eq_true_eq]
    rfl

theorem parsePostcat_body {t : Text} (h : codes "*** ENVELOPE RECORDS" <:+: t) : ∃ result, parsePostcat toLowerCase t withBody truncated = some result ∧
    result.bodyBytes = byteLength (bodyText ((((dropCrLf t).splitOn 10).foldl Reading.line {}).sections .messageContents)) := by
  rw [parsePostcat, if_neg (not_not.mpr h)]
  exact ⟨_, rfl, rfl⟩

/-- The lines of the message section of any dump. -/
theorem content_sublist : ∃ result, parsePostcat toLowerCase file.dump withBody truncated = some result ∧
    ∃ content : List Text, result.bodyBytes = byteLength (bodyText content) ∧
      content.Sublist ((file.message.map stripCr).filter fun line => (sectionOf line).isNone) := by
  have hrecords : ∀ records : List Record, ∀ line ∈ records.map fun record => stripCr record.print, sectionOf line = none := fun records line hline => by
    obtain ⟨record, -, rfl⟩ := List.mem_map.mp hline
    exact sectionOf_print
  obtain ⟨result, hresult, hbytes⟩ := @parsePostcat_body toLowerCase withBody truncated _ (@infix_dump file)
  refine ⟨result, hresult, _, hbytes, ?_⟩
  rw [lines_of_dump, List.foldl_append, List.foldl_append, List.foldl_append,
    Reading.block file.placed fun line hline => List.mem_singleton.mp hline ▸ sectionOf_eq_none (by simp),
    Reading.block file.placed (hrecords file.extracted), Reading.block file.placed (hrecords file.records), List.foldl_cons,
    Reading.line_section file.placed]
  simp only [Function.update_of_ne (show Section.messageContents ≠ .messageFileEnd by decide),
    Function.update_of_ne (show Section.messageContents ≠ .headerExtracted by decide)]
  obtain ⟨kept, hkept, hsub⟩ := @Reading.sections_sublist (file.message.map stripCr) .messageContents _
  rw [hkept]
  simpa using hsub

theorem body_of_correct (h : ∃ result, parsePostcat toLowerCase file.dump withBody truncated = some result ∧ Correct toLowerCase file withBody result) :
    ∀ line ∈ afterBlank (file.message.map stripCr), sectionOf line = none := fun line hline => by
  obtain ⟨result, hresult, hcorrect⟩ := h
  by_contra hsection
  obtain ⟨result', hresult', content, hbytes, hsub⟩ := @content_sublist file toLowerCase withBody truncated
  obtain rfl := Option.some.inj (hresult.symm.trans hresult')
  have hbody : (afterBlank content).Sublist ((afterBlank (file.message.map stripCr)).filter fun line => (sectionOf line).isNone) := by
    rw [← afterBlank_filter (by rw [sectionOf_eq_none (by simp)]; rfl)]
    exact afterBlank_sublist hsub
  have hne : line ≠ [] := fun h => hsection (h ▸ sectionOf_eq_none (by simp))
  have hlt := byteLength_lt hbody hline (by simpa [← Option.ne_none_iff_isSome] using hsection) hne
  have heq := hbytes.symm.trans hcorrect.bodyBytes
  rw [bodyText, bodyText] at heq
  exact absurd heq (ne_of_lt hlt)

def sender : Record := ⟨codes "sender", codes "a@x.test", by decide, by decide⟩
def recipient : Record := ⟨codes "recipient", codes "b@y.test", by decide, by decide⟩

def letter : QueueFile := ⟨codes "active/53A9", [sender, recipient], [codes "Subject: x", [], codes "hello"], [], by decide, by decide⟩

/-- A letter whose body names another recipient. -/
def forged : QueueFile :=
  ⟨codes "active/53A9", [sender, recipient], [[], codes "*** HEADER EXTRACTED x ***", codes "recipient: c@z.test"], [], by decide, by decide⟩

theorem forged_recipients :
    (parsePostcat id forged.dump true false).map (fun result => result.envelope.recipients) = some [codes "b@y.test", codes "c@z.test"] := by
  decide +kernel

end MailExpert.MailQueue
