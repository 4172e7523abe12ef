import MailExpert.PostfixLog.Templates

/-!
# A log of printed lines

An entry is read as it was printed exactly when its line is plain (`said_iff_plain`); what is tied together from plain lines, and what the
alerts count of them, is what was printed (`log_lines`).
-/

namespace MailExpert.PostfixLog

open Encodings (isSpace)
open Sanitizer (Text codes)
open Forwarding (trim)
open Fields

variable {lc : LowerCase} {part t u l q id : Text} {parts : List Text} {x y d : Token} {w : Words} {e : Printed} {template : Template}
  {log : List Printed} {lines : List Line} {messages : Table Text Message} {line : Line}

theorem isSpace_of_not_isSep {c : Nat} (h : isSep c = false) : isSpace c = false := (Bool.or_eq_false_iff.mp h).1

theorem isBreak_of_not_isSpace {c : Nat} (h : isSpace c = false) : isBreak c = false := by
  by_contra hc
  rw [Bool.not_eq_false, isBreak, Bool.or_eq_true, decide_eq_true_eq, decide_eq_true_eq] at hc
  obtain rfl | rfl := hc <;> cases h

theorem rdropWhile_append_cons {p : Nat → Bool} {c : Nat} (h : p c = false) : (l ++ c :: t).rdropWhile p = l ++ c :: t.rdropWhile p := by
  have hneg {d : Nat} (hd : p d = false) : ¬p d := by
    rw [hd]
    decide
  induction t using List.reverseRecOn with
  | nil => rw [List.rdropWhile_concat_neg _ _ _ (hneg h), List.rdropWhile_nil]
  | append_singleton t d ih =>
    rw [← List.cons_append, ← List.append_assoc]
    cases hd : p d with
    | false => rw [List.rdropWhile_concat_neg _ _ _ (hneg hd), List.rdropWhile_concat_neg _ _ _ (hneg hd), List.append_assoc, List.cons_append]
    | true => rw [List.rdropWhile_concat_pos _ _ _ hd, List.rdropWhile_concat_pos _ _ _ hd, ih]

theorem rdropWhile_append {p : Nat → Bool} (h : ∃ c ∈ t, p c = false) : (l ++ t).rdropWhile p = l ++ t.rdropWhile p := by
  obtain ⟨c, hc, hp⟩ := h
  obtain ⟨t₁, t₂, rfl⟩ := List.append_of_mem hc
  rw [← List.append_assoc, rdropWhile_append_cons hp, rdropWhile_append_cons hp, List.append_assoc]

theorem takeWhile_rdropWhile : (u.rdropWhile isSpace).takeWhile (fun c => !isSep c) = u.takeWhile fun c => !isSep c := by
  induction u using List.reverseRecOn with
  | nil => rfl
  | append_singleton u c ih =>
    cases hc : isSpace c with
    | false => rw [List.rdropWhile_concat_neg _ _ _ (by rw [hc]; decide)]
    | true => rw [List.rdropWhile_concat_pos _ _ _ hc, ih, takeWhile_append_stop (by simp [isSep, hc])]

theorem all_of_userOf (h : userOf lc.apply (some (u.takeWhile fun c => !isSep c)) = userOf lc.apply (some u)) : u.all (fun c => !isSep c) = true := by
  by_contra hall
  have hrest : u.dropWhile (fun c => !isSep c) ≠ [] := by
    rw [Ne, List.dropWhile_eq_nil_iff]
    exact fun h => hall (List.all_eq_true.mpr h)
  have hlonger := lc.longer (u.takeWhile fun c => !isSep c) _ hrest
  rw [List.takeWhile_append_dropWhile] at hlonger
  have hne : lc.apply u ≠ [] := by
    intro hnil
    rw [hnil] at hlonger
    exact absurd hlonger (Nat.not_lt_zero _)
  simp only [userOf, Option.map_some] at h
  rw [Option.filter_some_pos (p := fun v => decide (v ≠ [])) (decide_eq_true hne), Option.filter_eq_some_iff] at h
  rw [Option.some.inj h.1] at hlonger
  exact Nat.lt_irrefl _ hlonger

theorem field_user : field (joined (clientParts x y d u)) (codes "sasl_username") = some (u.takeWhile fun c => !isSep c) := by
  rw [field, find_client (fun _ => rfl) (fun _ => rfl) ⟨rfl, rfl, fun _ => rfl⟩]
  exact find_true_some rfl

theorem find_client_none {β : Type} {ask : Text → Option β} (hclient : ∀ l, ask (codes "client=" ++ l) = none)
    (hmethod : ∀ l, ask (codes "sasl_method=" ++ l) = none) (huser : ∀ l, ask (codes "sasl_username=" ++ l) = none)
    (hsep : ∀ l, ask (44 :: l) = none ∧ ask (32 :: l) = none) (hu : u.all (fun c => !isSep c) = true) :
    find isSep ask true (joined (clientParts x y d u)) = none := by
  rw [find_client hclient hmethod ⟨(hsep _).1, (hsep _).1, fun l => (hsep l).2⟩]
  refine find_one ?_ (huser u)
  rw [List.all_append, hu]
  rfl

theorem client_line : joined (clientParts x y d u) = codes "client=" ++ (x.1 ++ codes "[" ++ y.1 ++ codes "]" ++
    44 :: 32 :: (named (codes "sasl_method") d.1 ++ 44 :: 32 :: (codes "sasl_username=" ++ u))) := by
  rw [joined_client, named, show codes "client" ++ codes "=" = codes "client=" by decide, List.append_assoc]

theorem eventOf_client : eventOf (codes "smtpd") (joined (clientParts x y d u)) none = .received := by
  have hmessage : (codes "message-id=").isPrefixOf (joined (clientParts x y d u)) = false := by
    rw [client_line]
    rfl
  have hclient : (codes "client=").isPrefixOf (joined (clientParts x y d u)) = true := by
    rw [client_line]
    rfl
  rw [eventOf, if_neg (by decide), Option.bind_none]
  simp only [hmessage, hclient]
  rw [if_neg (by decide), if_neg fun h => absurd h.1 (by decide), if_neg fun h => absurd h.1 (by decide), if_neg fun h => absurd h.1 (by decide),
    if_neg fun h => absurd h.1 (by decide), if_neg fun h => absurd h.1 (by decide), if_pos (.inl trivial)]

theorem said_client : saidOf lc.apply (codes "smtpd") (some q) (joined (clientParts x y d (w.1.rdropWhile isSpace))) =
    (Template.client x y d w).said lc q ↔ (Template.client x y d w).Quiet lc := by
  rw [saidOf, Template.said, Said.mk.injEq, field_user, takeWhile_rdropWhile]
  constructor
  · rintro ⟨-, -, -, -, -, -, -, -, -, huser⟩
    exact all_of_userOf huser
  · intro hw
    have hprefix : (w.1.rdropWhile isSpace).all (fun c => !isSep c) = true :=
      List.all_eq_true.mpr fun c hc => List.all_eq_true.mp hw c ((List.rdropWhile_prefix _ _).subset hc)
    have haddress (name : Text) (h : name ∈ addressNames) :
        address lc.apply (joined (clientParts x y d (w.1.rdropWhile isSpace))) name = none := by
      simp only [addressNames, List.mem_cons, List.not_mem_nil, or_false] at h
      obtain rfl | rfl | rfl := h <;>
        exact Option.map_eq_none_iff.mpr (find_client_none (fun _ => rfl) (fun _ => rfl) (fun _ => rfl) (fun _ => ⟨rfl, rfl⟩) hprefix)
    have hstatus : statusMatch (joined (clientParts x y d (w.1.rdropWhile isSpace))) = none :=
      find_client_none (fun _ => rfl) (fun _ => rfl) (fun _ => rfl) (fun _ => ⟨rfl, rfl⟩) hprefix
    have hrelay : field (joined (clientParts x y d (w.1.rdropWhile isSpace))) (codes "relay") = none :=
      find_client_none (fun _ => rfl) (fun _ => rfl) (fun _ => rfl) (fun _ => ⟨rfl, rfl⟩) hprefix
    have hdsn : field (joined (clientParts x y d (w.1.rdropWhile isSpace))) (codes "dsn") = none :=
      find_client_none (fun _ => rfl) (fun _ => rfl) (fun _ => rfl) (fun _ => ⟨rfl, rfl⟩) hprefix
    rw [hstatus, haddress _ (by simp [addressNames]), haddress _ (by simp [addressNames]), haddress _ (by simp [addressNames]), hrelay, hdsn]
    refine ⟨eventOf_client, rfl, rfl, rfl, rfl, rfl, rfl, rfl, rfl, ?_⟩
    rw [List.takeWhile_eq_self_iff.mpr (List.all_eq_true.mp hw)]

theorem foldRun_eq (h : (l ++ t).all (fun c => !isBreak c) = true) : foldRun l t = l ++ t := by
  have hflush {l : Text} (h : l.all (fun c => !isBreak c) = true) : flush l = l := by
    rw [flush, if_neg]
    rw [List.any_eq_true]
    rintro ⟨c, hc, hbreak⟩
    have := List.all_eq_true.mp h c hc
    rw [hbreak] at this
    cases this
  induction t generalizing l with
  | nil =>
    rw [List.append_nil] at h ⊢
    exact hflush h
  | cons c t ih =>
    rw [foldRun]
    split
    · rw [ih (by simpa using h), List.append_assoc]
      rfl
    · rw [List.all_append, Bool.and_eq_true] at h
      rw [hflush h.1, ih (by
        rw [List.all_cons, Bool.and_eq_true] at h
        exact h.2.2)]
      rfl

theorem isAlnum_of_isHex {c : Nat} (h : isHex c = true) : isAlnum c = true := by
  simp only [isHex, isAlnum, isDigit, Bool.or_eq_true, Bool.and_eq_true, decide_eq_true_eq] at h ⊢
  omega

theorem isAlnum_of_isLongIdChar {c : Nat} (h : isLongIdChar c = true) : isAlnum c = true := by
  have hletters : ∀ c ∈ codes "BCDFGHJKLMNPQRSTVWXYZ" ++ codes "bcdfghjklmnpqrstvwxy", isAlnum c = true := by decide
  simp only [isLongIdChar, Bool.or_eq_true, decide_eq_true_eq] at h
  obtain (h | h) | h := h
  · simp [isAlnum, h]
  · exact hletters c (List.mem_append_left _ h)
  · exact hletters c (List.mem_append_right _ h)

theorem isQueueId_facts (h : isQueueId q = true) : q ≠ [] ∧ ∀ c ∈ q, isAlnum c = true := by
  simp only [isQueueId, Bool.or_eq_true, Bool.and_eq_true, decide_eq_true_eq] at h
  obtain ⟨⟨hall, hlen⟩, -⟩ | ⟨⟨hlen, -⟩, hlong⟩ := h
  · refine ⟨?_, fun c hc => isAlnum_of_isHex (List.all_eq_true.mp hall c hc)⟩
    rintro rfl
    exact absurd hlen (by decide)
  · refine ⟨?_, ?_⟩
    · rintro rfl
      exact absurd hlen (by decide)
    · split at hlong
      next heq =>
        rename_i c before inode
        rw [List.span_eq_takeWhile_dropWhile, Prod.mk.injEq] at heq
        rw [Bool.and_eq_true] at hlong
        intro e he
        rw [← List.takeWhile_append_dropWhile (p := isLongIdChar) (l := q), List.mem_append, heq.2] at he
        obtain he | he := he
        · exact isAlnum_of_isLongIdChar (List.mem_takeWhile_imp he)
        · obtain rfl | he := List.mem_cons.mp he
          · rfl
          · exact isAlnum_of_isLongIdChar (List.all_eq_true.mp hlong.2 e he)
      next => cases hlong

theorem isSpace_of_isAlnum {c : Nat} (h : isAlnum c = true) : isSpace c = false := by
  simp only [isAlnum, isDigit, Bool.or_eq_true, Bool.and_eq_true, decide_eq_true_eq] at h
  simp only [isSpace, List.mem_cons, List.not_mem_nil, or_false, Bool.or_eq_false_iff, Bool.and_eq_false_iff, decide_eq_false_iff_not]
  omega

theorem head_eq (hq : isQueueId q = true) : head (q ++ 58 :: 32 :: l) = if l.all inLine then (some q, l) else (none, q ++ 58 :: 32 :: l) := by
  obtain ⟨-, halnum⟩ := isQueueId_facts hq
  have hno : q ≠ codes "NOQUEUE" := by
    rintro rfl
    exact absurd hq (by decide)
  rw [head, takeWhile_append_stop (by decide), dropWhile_append_stop (by decide), List.takeWhile_eq_self_iff.mpr halnum,
    List.dropWhile_eq_nil_iff.mpr halnum, List.nil_append]
  simp only [hq, hno, true_and, if_false]

theorem oneLine_eq (hq : isQueueId q = true) (hl : l.all (fun c => !isBreak c) = true) (hspace : ∃ c ∈ l, isSpace c = false) :
    oneLine (q ++ codes ": " ++ l) = q ++ 58 :: 32 :: l.rdropWhile isSpace := by
  obtain ⟨hne, halnum⟩ := isQueueId_facts hq
  have hbreak : (q ++ codes ": " ++ l).all (fun c => !isBreak c) = true := by
    rw [List.all_append, List.all_append, hl, List.all_eq_true.mpr fun c hc => by
      rw [isBreak_of_not_isSpace (isSpace_of_isAlnum (halnum c hc))]
      rfl]
    rfl
  obtain ⟨c, q', rfl⟩ := List.exists_cons_of_ne_nil hne
  have hc := isSpace_of_isAlnum (halnum c List.mem_cons_self)
  rw [oneLine, foldRun_eq (by rwa [List.nil_append]), List.nil_append, trim, List.cons_append, List.cons_append,
    List.dropWhile_cons_of_neg (by rw [hc]; decide), ← List.cons_append, ← List.cons_append, rdropWhile_append hspace, List.append_assoc]
  rfl

/-! ## A printed line -/

theorem all_joined (hsep : (codes ", ").all p = true) (h : ∀ part ∈ parts, part.all p = true) : (joined parts).all p = true := by
  induction parts with
  | nil => rfl
  | cons part parts ih =>
    cases parts with
    | nil => rw [joined_singleton]; exact h part List.mem_cons_self
    | cons q parts =>
      have ih := ih fun part hpart => h part (List.mem_cons_of_mem _ hpart)
      rw [joined_cons, List.all_append, h part List.mem_cons_self, show 44 :: 32 :: joined (q :: parts) = codes ", " ++ joined (q :: parts) from rfl,
        List.all_append, hsep, ih]
      rfl

theorem Token.noBreak (t : Token) : t.1.all (fun c => !isBreak c) = true :=
  List.all_eq_true.mpr fun c hc => by rw [isBreak_of_not_isSpace (isSpace_of_not_isSep (word_of_all t.2 c hc))]; rfl

theorem Addr.noBreak (a : Addr) : a.1.all (fun c => !isBreak c) = true :=
  List.all_eq_true.mpr fun c hc => by
    have h := List.all_eq_true.mp a.2 c hc
    rw [Bool.and_eq_true, Bool.and_eq_true] at h
    exact h.1.1

theorem bracketed_noBreak {m : Text} (a : Addr) (hm : m.all (fun c => !isBreak c) = true) : (bracketed m a).all (fun c => !isBreak c) = true := by
  rw [bracketed, List.all_append, List.all_append, List.all_append, hm, Addr.noBreak a]
  rfl

theorem named_noBreak {m v : Text} (hm : m.all (fun c => !isBreak c) = true) (hv : v.all (fun c => !isBreak c) = true) :
    (named m v).all (fun c => !isBreak c) = true := by
  rw [named, List.all_append, List.all_append, hm, hv]
  rfl

theorem parts_noBreak (template : Template) : ∀ part ∈ template.parts, part.all (fun c => !isBreak c) = true := by
  intro part hpart
  cases template with
  | cleanup m =>
    rw [List.mem_singleton.mp hpart]
    exact named_noBreak (by decide) m.2
  | delivery program a b r x y d s t =>
    simp only [Template.parts, List.mem_cons, List.mem_append, Option.mem_toList, Option.map_eq_some_iff, List.not_mem_nil, or_false] at hpart
    obtain rfl | ⟨b, -, rfl⟩ | rfl | rfl | rfl | rfl | rfl := hpart
    · exact bracketed_noBreak a (by decide)
    · exact bracketed_noBreak b (by decide)
    · exact named_noBreak (by decide) (Token.noBreak r)
    · exact named_noBreak (by decide) (Token.noBreak x)
    · exact named_noBreak (by decide) (Token.noBreak y)
    · exact named_noBreak (by decide) (Token.noBreak d)
    · rw [statusPart, List.all_append, List.all_append, List.all_append, t.2, named_noBreak (by decide) (by cases s <;> decide)]
      rfl
  | queued a x y =>
    simp only [Template.parts, List.mem_cons, List.not_mem_nil, or_false] at hpart
    obtain rfl | rfl | rfl := hpart
    · exact bracketed_noBreak a (by decide)
    · exact named_noBreak (by decide) (Token.noBreak x)
    · rw [List.all_append, named_noBreak (by decide) (Token.noBreak y)]
      rfl
  | expired a =>
    simp only [Template.parts, List.mem_cons, List.not_mem_nil, or_false] at hpart
    obtain rfl | rfl | rfl := hpart
    · exact bracketed_noBreak a (by decide)
    · decide
    · decide
  | removed =>
    rw [List.mem_singleton.mp hpart]
    decide
  | client x y d u =>
    simp only [Template.parts, List.mem_cons, List.not_mem_nil, or_false] at hpart
    obtain rfl | rfl | rfl := hpart
    · refine named_noBreak (by decide) ?_
      rw [List.all_append, List.all_append, List.all_append, Token.noBreak x, Token.noBreak y]
      rfl
    · exact named_noBreak (by decide) (Token.noBreak d)
    · exact named_noBreak (by decide) u.2

/-- A line does not begin with a space. -/
theorem joined_visible (template : Template) : ∃ c ∈ joined template.parts, isSpace c = false := by
  have hhead {part : Text} {parts : List Text} {c : Nat} (h : c ∈ part) : c ∈ joined (part :: parts) := by
    obtain ⟨l, hl⟩ := joined_cons_append part parts
    exact hl ▸ List.mem_append_left _ h
  cases template with
  | cleanup m => exact ⟨109, hhead List.mem_cons_self, rfl⟩
  | delivery program a b r x y d s t => exact ⟨116, hhead List.mem_cons_self, rfl⟩
  | queued a x y => exact ⟨102, hhead List.mem_cons_self, rfl⟩
  | expired a => exact ⟨102, hhead List.mem_cons_self, rfl⟩
  | removed => exact ⟨114, hhead List.mem_cons_self, rfl⟩
  | client x y d u => exact ⟨99, hhead List.mem_cons_self, rfl⟩

/-- The service that writes a template's lines. -/
def Printed.service (e : Printed) : Text := serviceOf e.template.program

/-- The line behind the queue id, without white space at its end. -/
def Printed.rest (e : Printed) : Text := (joined e.template.parts).rdropWhile isSpace

def Printed.epoch (e : Printed) : Option Nat := (e.time.filter (0 < ·)).map (· * 1000)

theorem parse_printed (lc : LowerCase) (e : Printed) : ∃ line, parsePostfixEntry lc.apply e.entry = some line ∧ line.epoch = e.epoch ∧ line.service = e.service ∧
    line.said = saidOf lc.apply e.service (if e.rest.all inLine then some e.queueId.1 else none)
      (if e.rest.all inLine then e.rest else e.queueId.1 ++ 58 :: 32 :: e.rest) := by
  have hline : oneLine e.entry.message = e.queueId.1 ++ 58 :: 32 :: e.rest :=
    oneLine_eq e.queueId.2 (all_joined (by decide) (parts_noBreak e.template)) (joined_visible e.template)
  have hne : e.queueId.1 ++ 58 :: 32 :: e.rest ≠ [] := by simp
  rw [parsePostfixEntry]
  simp only [hline, if_neg hne, head_eq e.queueId.2]
  refine ⟨_, rfl, rfl, rfl, ?_⟩
  split <;> rfl

theorem rdropWhile_of_last {c : Nat} {l t : Text} (h : t = l ++ [c]) (hc : isSpace c = false) : t.rdropWhile isSpace = t := by
  rw [h, List.rdropWhile_concat_neg _ _ _ (by rw [hc]; decide)]

theorem joined_append_last (words : List Text) (last : Text) : ∃ l, joined (words ++ [last]) = l ++ last := by
  induction words with
  | nil => exact ⟨[], by simp [joined_singleton]⟩
  | cons w words ih =>
    obtain ⟨l, hl⟩ := ih
    cases words with
    | nil =>
      rw [List.nil_append] at hl
      exact ⟨w ++ 44 :: 32 :: l, by rw [List.singleton_append, joined_cons, hl]; simp⟩
    | cons w' words => exact ⟨w ++ 44 :: 32 :: l, by rw [List.cons_append, List.cons_append, joined_cons, ← List.cons_append, hl]; simp⟩

theorem rest_of_last (words : List Text) (last l : Text) (c : Nat) (hparts : e.template.parts = words ++ [last]) (hlast : last = l ++ [c])
    (hc : isSpace c = false) : e.rest = joined e.template.parts := by
  obtain ⟨l', hl'⟩ := joined_append_last words last
  refine rdropWhile_of_last (c := c) (l := l' ++ l) ?_ hc
  rw [hparts, hl', hlast, List.append_assoc]

theorem said_rest : saidOf lc.apply e.service (some e.queueId.1) e.rest = e.said lc ↔ e.template.Quiet lc := by
  obtain ⟨time, queueId, template⟩ := e
  cases template with
  | cleanup m =>
    have hrest : Printed.rest ⟨time, queueId, .cleanup m⟩ = codes "message-id=" ++ m.1.rdropWhile isSpace := by
      have hline : joined [named (codes "message-id") m.1] = codes "message-id" ++ 61 :: m.1 := by
        rw [joined_singleton, named, List.append_assoc]
        rfl
      rw [Printed.rest, Template.parts, hline, rdropWhile_append_cons rfl]
      rfl
    rw [hrest]
    exact said_cleanup
  | delivery program a b r x y d s t =>
    rw [rest_of_last (bracketed (codes "to") a :: ((b.map (bracketed (codes "orig_to"))).toList ++ [named (codes "relay") r.1,
      named (codes "delay") x.1, named (codes "delays") y.1, named (codes "dsn") d.1])) (statusPart s t.1)
      (named (codes "status") s.word ++ codes " (" ++ t.1) 41 (by simp [Template.parts]) rfl rfl]
    exact said_delivery
  | queued a x y =>
    rw [rest_of_last ([bracketed (codes "from") a, named (codes "size") x.1]) (named (codes "nrcpt") y.1 ++ codes " (queue active)")
      (named (codes "nrcpt") y.1 ++ codes " (queue active") 41 rfl (by rw [List.append_assoc]; rfl) rfl]
    exact said_queued
  | expired a =>
    rw [rest_of_last ([bracketed (codes "from") a, codes "status=expired"]) (codes "returned to sender")
      (codes "returned to sende") 114 rfl rfl rfl]
    exact said_expired
  | removed => exact iff_of_true said_removed trivial
  | client x y d u =>
    have hrest : Printed.rest ⟨time, queueId, .client x y d u⟩ = joined (clientParts x y d (u.1.rdropWhile isSpace)) := by
      have hline (u : Text) : joined (clientParts x y d u) = (named (codes "client") (x.1 ++ codes "[" ++ y.1 ++ codes "]") ++
          44 :: 32 :: (named (codes "sasl_method") d.1 ++ 44 :: 32 :: codes "sasl_username")) ++ 61 :: u := by
        rw [joined_client, show codes "sasl_username=" = codes "sasl_username" ++ [61] by decide]
        simp only [List.append_assoc, List.cons_append, List.nil_append]
      have hparts : (Template.client x y d u).parts = clientParts x y d u.1 := rfl
      rw [Printed.rest, hparts, hline, rdropWhile_append_cons rfl, ← hline]
    rw [hrest]
    exact said_client

theorem said_iff_plain (lc : LowerCase) (e : Printed) :
    (parsePostfixEntry lc.apply e.entry).map Line.said = some (e.said lc) ↔ e.Plain lc := by
  obtain ⟨line, hline, -, -, hsaid⟩ := parse_printed lc e
  rw [hline, Option.map_some, Option.some.injEq, hsaid]
  have hid : (e.said lc).queueId = some e.queueId.1 := by
    rw [Printed.said]
    cases e.template <;> rfl
  constructor
  · intro heq
    have hin : e.rest.all inLine = true := by
      by_contra hin
      have hq := congrArg Said.queueId heq
      rw [if_neg hin, if_neg hin, hid] at hq
      cases hq
    rw [if_pos hin, if_pos hin] at heq
    exact ⟨hin, said_rest.mp heq⟩
  · rintro ⟨hin, hquiet⟩
    have hin : e.rest.all inLine = true := hin
    rw [if_pos hin, if_pos hin]
    exact said_rest.mpr hquiet

/-! ## What is tied together -/

/-- The message of a queue id; one that no line names is empty. -/
def messageOf (messages : Table Text Message) (id : Text) : Message := (messages.lookup id).getD {}

theorem messageOf_addLine : messageOf (addLine messages line) id =
    if line.said.queueId = some id then (messageOf messages id).add line else messageOf messages id := by
  rw [addLine]
  cases hid : line.said.queueId with
  | none => simp [messageOf]
  | some id' =>
    by_cases h : id = id'
    · subst h
      simp [messageOf]
    · simp [messageOf, h, Ne.symm h]

theorem messageOf_foldl : messageOf (lines.foldl addLine messages) id =
    (lines.filter fun line => line.said.queueId = some id).foldl Message.add (messageOf messages id) := by
  induction lines generalizing messages with
  | nil => rfl
  | cons line lines ih =>
    rw [List.foldl_cons, ih, messageOf_addLine]
    by_cases h : line.said.queueId = some id
    · rw [if_pos h, List.filter_cons_of_pos (by simpa using h), List.foldl_cons]
    · rw [if_neg h, List.filter_cons_of_neg (by simpa using h)]

theorem deliveries_foldl (message : Message) : (lines.foldl Message.add message).deliveries =
    message.deliveries ++ lines.filter fun line => line.said.event.isDelivery := by
  induction lines generalizing message with
  | nil => simp
  | cons line lines ih =>
    rw [List.foldl_cons, ih, Message.add]
    cases h : line.said.event.isDelivery <;> simp [h]

theorem saslUsername_foldl (message : Message) : (lines.foldl Message.add message).saslUsername =
    ((lines.filterMap fun line => line.said.saslUsername).getLast?).or message.saslUsername := by
  induction lines generalizing message with
  | nil => rfl
  | cons line lines ih =>
    rw [List.foldl_cons, ih, Message.add]
    cases h : line.said.saslUsername with
    | none => simp [h]
    | some user => simp [h, List.getLast?_cons]

def readLog (lc : LowerCase) (log : List Printed) : List Line := log.filterMap fun e => parsePostfixEntry lc.apply e.entry

/-- Of plain lines, those are picked that were printed so. -/
theorem filter_readLog (hplain : ∀ e ∈ log, e.Plain lc) (p : Option Nat → Text → Said → Bool) :
    ((readLog lc log).filter fun line => p line.epoch line.service line.said).map Line.said =
      (log.filter fun e => p e.epoch e.service (e.said lc)).map (Printed.said lc) := by
  induction log with
  | nil => rfl
  | cons e log ih =>
    have ih := ih fun e he => hplain e (List.mem_cons_of_mem _ he)
    obtain ⟨line, hline, hepoch, hservice, -⟩ := parse_printed lc e
    have hsaid := (said_iff_plain lc e).mpr (hplain e List.mem_cons_self)
    rw [hline, Option.map_some, Option.some.injEq] at hsaid
    have hread : readLog lc (e :: log) = line :: readLog lc log := by simp [readLog, hline]
    rw [hread]
    cases hp : p e.epoch e.service (e.said lc) with
    | true =>
      rw [List.filter_cons_of_pos (by rw [hepoch, hservice, hsaid, hp]), List.filter_cons_of_pos (p := fun e : Printed => p e.epoch e.service (e.said lc)) hp, List.map_cons, List.map_cons, ih, hsaid]
    | false =>
      rw [List.filter_cons_of_neg (by rw [hepoch, hservice, hsaid, hp]; decide), List.filter_cons_of_neg (p := fun e : Printed => p e.epoch e.service (e.said lc)) (by rw [hp]; decide), ih]

theorem queueId_said : (Printed.said lc e).queueId = some e.queueId.1 := by
  rw [Printed.said]
  cases e.template <;> rfl

theorem messageOf_correlate : messageOf (correlateByQueueId lines) id =
    (lines.filter fun line => line.said.queueId = some id).foldl Message.add {} := messageOf_foldl

theorem deliveries_readLog (hplain : ∀ e ∈ log, e.Plain lc) : (messageOf (correlateByQueueId (readLog lc log)) id).deliveries.map Line.said =
    (log.filter fun e => e.queueId.1 = id && (e.said lc).event.isDelivery).map (Printed.said lc) := by
  have h := filter_readLog hplain fun _ _ said => decide (said.queueId = some id) && said.event.isDelivery
  simp only [queueId_said, Option.some.injEq] at h
  rw [← h, messageOf_correlate, deliveries_foldl, List.nil_append, List.filter_filter]
  congr 2
  funext line
  exact Bool.and_comm _ _

theorem saslUsername_readLog (hplain : ∀ e ∈ log, e.Plain lc) : (messageOf (correlateByQueueId (readLog lc log)) id).saslUsername =
    (((log.filter fun e => e.queueId.1 = id).map (Printed.said lc)).filterMap Said.saslUsername).getLast? := by
  have h := filter_readLog hplain fun _ _ said => decide (said.queueId = some id)
  simp only [queueId_said, Option.some.injEq] at h
  rw [← h, messageOf_correlate, saslUsername_foldl, Option.or_none, List.filterMap_map]
  rfl

def printedSignals (lc : LowerCase) (refused : AlertKey → Option Text → Text → Bool) (now : Nat) (eopHost : Text) (log : List Printed) :
    List (AlertKey × List Said) :=
  [AlertKey.connector_blocked, .tenant_attribution, .terrl_exceeded, .eop_bypass].filterMap fun key =>
    let hits := (log.filter fun e => counts lc.apply refused now eopHost key e.epoch e.service (e.said lc)).map (Printed.said lc)
    if hits.isEmpty then none else some (key, hits)

theorem logSignals_readLog (hplain : ∀ e ∈ log, e.Plain lc) (refused : AlertKey → Option Text → Text → Bool) (now : Nat) (eopHost : Text) :
    (logSignals lc.apply refused now eopHost (readLog lc log)).map (fun signal => (signal.1, signal.2.map Line.said)) =
      printedSignals lc refused now eopHost log := by
  rw [logSignals, printedSignals, List.map_filterMap]
  congr 1
  funext key
  simp only [← filter_readLog hplain (counts lc.apply refused now eopHost key), List.isEmpty_map]
  split <;> rfl

/-- A line is read as it was printed exactly when it is plain. While all lines of a log are, a letter's deliveries, its user and the lines of
the alerts are those that were printed. -/
theorem log_lines (lc : LowerCase) :
    (∀ e : Printed, (parsePostfixEntry lc.apply e.entry).map Line.said = some (e.said lc) ↔ e.Plain lc) ∧
    ∀ log : List Printed, (∀ e ∈ log, e.Plain lc) →
      (∀ id, (messageOf (correlateByQueueId (readLog lc log)) id).deliveries.map Line.said =
        (log.filter fun e => e.queueId.1 = id && (e.said lc).event.isDelivery).map (Printed.said lc)) ∧
      (∀ id, (messageOf (correlateByQueueId (readLog lc log)) id).saslUsername =
        (((log.filter fun e => e.queueId.1 = id).map (Printed.said lc)).filterMap Said.saslUsername).getLast?) ∧
      ∀ refused now eopHost, (logSignals lc.apply refused now eopHost (readLog lc log)).map (fun signal => (signal.1, signal.2.map Line.said)) =
        printedSignals lc refused now eopHost log := by
  exact ⟨said_iff_plain lc, fun log hplain => ⟨fun id => deliveries_readLog hplain, fun id => saslUsername_readLog hplain,
    logSignals_readLog hplain⟩⟩

theorem longer_fold : ∀ u v : Text, v ≠ [] → (u.map Sanitizer.fold).length < ((u ++ v).map Sanitizer.fold).length := fun u v hv => by
  rw [List.length_map, List.length_map, List.length_append]
  exact Nat.lt_add_of_pos_right (List.length_pos_iff.mpr hv)

def asciiLower : LowerCase := ⟨List.map Sanitizer.fold, longer_fold⟩

theorem sample_facts : isQueueId (codes "53A99193F13") = true ∧
    (codes "anna@example.com").all (fun c => !isBreak c && c ≠ 60 && c ≠ 62) = true ∧
    (codes "none").all (fun c => !isSep c) = true ∧
    (codes "250 :) done").all (fun c => !isBreak c) = true ∧
    (codes "<x, status=sent (y)>").all (fun c => !isBreak c) = true := by decide

theorem sample_id : isQueueId (codes "53A99193F13") = true := sample_facts.1

theorem sample_address : (codes "anna@example.com").all (fun c => !isBreak c && c ≠ 60 && c ≠ 62) = true := sample_facts.2.1

theorem sample_token : (codes "none").all (fun c => !isSep c) = true := sample_facts.2.2.1

theorem sample_text : (codes "250 :) done").all (fun c => !isBreak c) = true := sample_facts.2.2.2.1

def sampleDelivery : Printed where
  time := some 1
  queueId := ⟨codes "53A99193F13", sample_id⟩
  template := .delivery (codes "postfix/smtp") ⟨codes "anna@example.com", sample_address⟩ none ⟨codes "none", sample_token⟩ ⟨codes "none", sample_token⟩
    ⟨codes "none", sample_token⟩ ⟨codes "none", sample_token⟩ .sent ⟨codes "250 :) done", sample_text⟩

theorem sampleDelivery_plain : sampleDelivery.Plain asciiLower := by
  refine ⟨by decide, ?_, by decide, by decide, by decide, by decide, fun _ => by decide⟩
  intro c hc
  rw [Option.toList_none, List.mem_singleton] at hc
  subst hc
  decide

theorem log_lines_sample : (messageOf (correlateByQueueId (readLog asciiLower [sampleDelivery])) (codes "53A99193F13")).deliveries.map Line.said =
    [sampleDelivery].map (Printed.said asciiLower) :=
  ((log_lines asciiLower).2 [sampleDelivery] fun _ he => List.mem_singleton.mp he ▸ sampleDelivery_plain).1 _

theorem forged_text : (codes "<x, status=sent (y)>").all (fun c => !isBreak c) = true := sample_facts.2.2.2.2

def forgedMessageId : Printed where
  time := some 1
  queueId := ⟨codes "53A99193F13", sample_id⟩
  template := .cleanup ⟨codes "<x, status=sent (y)>", forged_text⟩

/-- The line of a Message-ID is read as a delivery. -/
theorem log_lines_forged : (parsePostfixEntry asciiLower.apply forgedMessageId.entry).map (fun line => (line.said.event, line.said.statusText)) =
      some (.sent, some (codes "y)>")) ∧
    (forgedMessageId.said asciiLower).event = .message_id ∧
    ((messageOf (correlateByQueueId (readLog asciiLower [forgedMessageId])) (codes "53A99193F13")).deliveries.length = 1) ∧
    (parsePostfixEntry asciiLower.apply forgedMessageId.entry).map Line.said ≠ some (forgedMessageId.said asciiLower) := by
  refine ⟨by decide, rfl, by decide, fun h => ?_⟩
  have h := congrArg (Option.map Said.event) h
  rw [Option.map_map] at h
  exact absurd h (by decide)

end MailExpert.PostfixLog
