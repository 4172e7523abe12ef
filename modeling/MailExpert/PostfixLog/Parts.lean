import MailExpert.PostfixLog.Printed

/-!
# The parts of a printed line

The searches go from comma to comma. A part in angle brackets gives a field or a status only from within (`field_bracketed`, `status_bracketed`),
and an address under its own name alone (`address_head`, `address_bracketed`).
-/

namespace MailExpert.PostfixLog

open Encodings (isSpace)
open Sanitizer (Text codes)
open Fields

variable {name part t x l : Text} {parts : List Text} {c : Nat}

theorem fieldAt_append (hc : isSep c = true) (hname : name.all (fun c => !isSep c) = true) : fieldAt name (x ++ c :: l) = fieldAt name x := by
  have hmem : c ∉ name ++ codes "=" := by
    intro hmem
    obtain hmem | hmem := List.mem_append.mp hmem
    · simpa [hc] using List.all_eq_true.mp hname c hmem
    · rw [show codes "=" = [61] from rfl, List.mem_singleton] at hmem
      subst hmem
      cases hc
  rw [fieldAt, fieldAt, isPrefixOf?_append_stop hmem, Option.map_map]
  congr 1
  funext value
  exact takeWhile_append_stop (by rw [hc]; rfl)

theorem statusAt_append (hlower : isLower c = false) (hc : c ≠ 61) : statusAt (x ++ c :: l) = (statusAt x).map fun m => (m.1, m.2 ++ c :: l) := by
  have hmem : c ∉ codes "status=" := by
    intro hmem
    rw [show codes "status=" = [115, 116, 97, 116, 117, 115, 61] from rfl] at hmem
    simp only [List.mem_cons, List.not_mem_nil, or_false] at hmem
    obtain rfl | rfl | rfl | rfl | rfl | rfl | rfl := hmem <;> first | exact hc rfl | cases hlower
  rw [statusAt, statusAt, isPrefixOf?_append_stop hmem]
  cases (codes "status=").isPrefixOf? x with
  | none => rfl
  | some value =>
    rw [Option.map_some, Option.bind_some, Option.bind_some, takeWhile_append_stop hlower, dropWhile_append_stop hlower]
    split <;> rfl

theorem joined_cons {q : Text} : joined (part :: q :: parts) = part ++ 44 :: 32 :: joined (q :: parts) := by
  simp [joined, List.intercalate_cons_cons, show codes ", " = [44, 32] from rfl]

theorem joined_singleton : joined [part] = part := by simp [joined]

/-- A field is searched in one part after the other. -/
theorem field_joined (hname : name.all (fun c => !isSep c) = true) (hnil : fieldAt name [] = none) (hblank : ∀ l, fieldAt name (32 :: l) = none) :
    field (joined parts) name = parts.findSome? fun part => field part name := by
  induction parts with
  | nil => rfl
  | cons part parts ih =>
    cases parts with
    | nil =>
      rw [joined_singleton]
      simp
    | cons q parts =>
      have ih : find isSep (fieldAt name) true (joined (q :: parts)) = (q :: parts).findSome? fun part => field part name := ih
      rw [joined_cons, field, find_append_stop (fun x => fieldAt_append rfl hname) hnil, show isSep 44 = true from rfl, find_sep rfl (hblank _), ih,
        ← field]
      cases hpart : field part name <;> simp [hpart, List.findSome?_cons]

theorem statusMatch_joined {q : Text} : statusMatch (joined (part :: q :: parts)) =
    ((statusMatch part).map fun m => (m.1, m.2 ++ 44 :: 32 :: joined (q :: parts))).or (statusMatch (joined (q :: parts))) := by
  rw [joined_cons, statusMatch, find_append_map _ (fun x => statusAt_append rfl (by decide)) rfl, show isSep 44 = true from rfl, find_sep rfl rfl]
  rfl

theorem addressAt_addr {y : Text} (a : Addr) (hname : 62 ∉ name) (hy : y <:+ a.1) : addressAt name (y ++ 62 :: l) = none := by
  have hmem : 62 ∉ name ++ codes "=<" := by
    rw [List.mem_append, not_or]
    exact ⟨hname, by decide⟩
  have hnone : (name ++ codes "=<").isPrefixOf? y = none := by
    cases h : (name ++ codes "=<").isPrefixOf? y with
    | none => rfl
    | some rest =>
      rw [List.isPrefixOf?_eq_some_iff_append_eq] at h
      have hy' : 60 ∈ a.1 := hy.mem (h ▸ List.mem_append_left _ (List.mem_append_right _ (by decide)))
      exact absurd (List.all_eq_true.mp a.2 60 hy') (by decide)
  rw [addressAt, isPrefixOf?_append_stop hmem, hnone]
  rfl

theorem word_of_all (hx : x.all (fun c => !isSep c) = true) : ∀ c ∈ x, isSep c = false := fun c hc => by
  simpa using List.all_eq_true.mp hx c hc

/-- A part in angle brackets under another name. -/
theorem address_bracketed {m q : Text} (a : Addr) (hm : m.all (fun c => !isSep c) = true) (hask : ∀ l, addressAt name (m ++ codes "=<" ++ l) = none)
    (hname : 62 ∉ name) (hsep : ∀ c l, isSep c = true → addressAt name (c :: l) = none) :
    find isSep (addressAt name) true (joined (bracketed m a :: q :: parts)) = find isSep (addressAt name) true (joined (q :: parts)) := by
  have hword : (m ++ codes "=<").all (fun c => !isSep c) = true := by
    rw [List.all_append, hm]
    rfl
  have hline : bracketed m a ++ 44 :: 32 :: joined (q :: parts) = (m ++ codes "=<") ++ (a.1 ++ 62 :: 44 :: 32 :: joined (q :: parts)) := by
    simp [bracketed, show codes ">" = [62] from rfl]
  rw [joined_cons, hline, find_word (word_of_all hword) (hask _), find_skip fun y hy => addressAt_addr a hname hy, show isSep 62 = false from rfl,
    find_sep rfl (hsep 44 _ rfl), find_sep rfl (hsep 32 _ rfl)]

/-- Parts that are one word each. -/
theorem address_words {words : List Text} {last : Text} (hwords : ∀ w ∈ words, w.all (fun c => !isSep c) = true ∧ ∀ l, addressAt name (w ++ l) = none)
    (hsep : ∀ c l, isSep c = true → addressAt name (c :: l) = none) :
    find isSep (addressAt name) true (joined (words ++ [last])) = find isSep (addressAt name) true last := by
  induction words with
  | nil => simp [joined]
  | cons w words ih =>
    obtain ⟨hw, hask⟩ := hwords w List.mem_cons_self
    have ih := ih fun w hw => hwords w (List.mem_cons_of_mem _ hw)
    cases words with
    | nil =>
      rw [List.singleton_append, joined_cons, find_word (word_of_all hw) (hask _), find_sep rfl (hsep 44 _ rfl), find_sep rfl (hsep 32 _ rfl)]
      exact ih
    | cons w' words =>
      rw [List.cons_append, List.cons_append, joined_cons, find_word (word_of_all hw) (hask _), find_sep rfl (hsep 44 _ rfl),
        find_sep rfl (hsep 32 _ rfl)]
      exact ih

theorem addressAt_sep (hname : ∃ d rest, name = d :: rest ∧ isSep d = false) (hc : isSep c = true) : addressAt name (c :: l) = none := by
  obtain ⟨d, rest, rfl, hd⟩ := hname
  have hne : d ≠ c := by
    rintro rfl
    rw [hc] at hd
    cases hd
  simp [addressAt, List.isPrefixOf?, hne]

theorem field_bracketed {m : Text} (a : Addr) (hm : m.all (fun c => !isSep c) = true) (hask : ∀ l, fieldAt name (m ++ codes "=<" ++ l) = none) :
    field (bracketed m a) name = fieldIn name (a.1 ++ codes ">") := by
  have hword : (m ++ codes "=<").all (fun c => !isSep c) = true := by
    rw [List.all_append, hm]
    rfl
  rw [field, bracketed, List.append_assoc, find_word (word_of_all hword) (hask _), fieldIn]

theorem find_one {β : Type} {ask : Text → Option β} (hx : x.all (fun c => !isSep c) = true) (hask : ask x = none) : find isSep ask true x = none := by
  have h : find isSep ask true (x ++ []) = find isSep ask false [] := find_word (word_of_all hx) (by rwa [List.append_nil])
  rwa [List.append_nil] at h

theorem field_word (hx : x.all (fun c => !isSep c) = true) (hask : fieldAt name x = none) : field x name = none := find_one hx hask

theorem field_named (v : Token) (h : fieldAt name (named name v.1) = some (v.1.takeWhile fun c => !isSep c)) : field (named name v.1) name = some v.1 := by
  have hv : v.1.takeWhile (fun c => !isSep c) = v.1 := List.takeWhile_eq_self_iff.mpr (List.all_eq_true.mp v.2)
  rw [hv] at h
  cases hname : named name v.1 with
  | nil => simp [named, show codes "=" = [61] from rfl] at hname
  | cons c l =>
    rw [hname] at h
    exact find_true_some h

theorem status_bracketed {m : Text} (a : Addr) (hm : m.all (fun c => !isSep c) = true) (hask : ∀ l, statusAt (m ++ codes "=<" ++ l) = none) :
    statusMatch (bracketed m a) = (statusIn a.1).map fun s => (s.1, s.2 ++ [62]) := by
  have hword : (m ++ codes "=<").all (fun c => !isSep c) = true := by
    rw [List.all_append, hm]
    rfl
  rw [statusMatch, bracketed, List.append_assoc, find_word (word_of_all hword) (hask _), show codes ">" = [62] from rfl,
    find_append_map _ (fun x => statusAt_append rfl (by decide)) rfl, statusIn]
  cases find isSep statusAt false a.1 <;> rfl

/-! ## Addresses and status texts -/

theorem joined_cons_append (part : Text) (parts : List Text) : ∃ l, joined (part :: parts) = part ++ l := by
  cases parts with
  | nil => exact ⟨[], by simp [joined]⟩
  | cons q parts => exact ⟨_, joined_cons⟩

theorem length_le_joined (h : part ∈ parts) : part.length ≤ (joined parts).length := by
  induction parts with
  | nil => cases h
  | cons p parts ih =>
    cases parts with
    | nil =>
      rw [List.mem_singleton.mp h]
      simp [joined]
    | cons q parts =>
      rw [joined_cons, List.length_append, List.length_cons, List.length_cons]
      obtain rfl | h := List.mem_cons.mp h
      · omega
      · have := ih h
        omega

theorem addressAt_bracketed (a : Addr) : addressAt name (bracketed name a ++ l) = some a.1 := by
  have hmem : ∀ c ∈ a.1, decide (c ≠ 62) = true := fun c hc => by
    have h := List.all_eq_true.mp a.2 c hc
    simp only [Bool.and_eq_true, decide_eq_true_eq] at h
    exact decide_eq_true h.2
  have hline : bracketed name a ++ l = (name ++ codes "=<") ++ (a.1 ++ 62 :: l) := by simp [bracketed, show codes ">" = [62] from rfl]
  rw [addressAt, hline, isPrefixOf?_append, Option.bind_some, if_pos (by simp), takeWhile_append_stop (by decide), List.takeWhile_eq_self_iff.mpr hmem]

theorem address_head (a : Addr) : find isSep (addressAt name) true (joined (bracketed name a :: parts)) = some a.1 := by
  obtain ⟨l, hl⟩ := joined_cons_append (bracketed name a) parts
  have h : addressAt name (bracketed name a ++ l) = some a.1 := addressAt_bracketed a
  rw [← hl] at h
  cases hline : joined (bracketed name a :: parts) with
  | nil =>
    rw [hline] at hl
    simp [bracketed, show codes ">" = [62] from rfl] at hl
  | cons c rest =>
    rw [hline] at h
    exact find_true_some h

theorem named_word (hname : name.all (fun c => !isSep c) = true) (v : Token) : (named name v.1).all (fun c => !isSep c) = true := by
  rw [named, List.all_append, List.all_append, hname, v.2]
  rfl

theorem statusPart_eq (s : DeliveryStatus) : statusPart s t = named (codes "status") s.word ++ (32 :: ([40] ++ (t ++ codes ")"))) := by
  simp [statusPart, show codes " (" = [32, 40] from rfl]

theorem statusWord_word (s : DeliveryStatus) : (named (codes "status") s.word).all (fun c => !isSep c) = true := by
  cases s <;> decide

theorem field_statusPart {s : DeliveryStatus} (h : ∀ l, fieldAt name (named (codes "status") s.word ++ l) = none)
    (hsep : ∀ l, fieldAt name (32 :: l) = none) (hparen : ∀ l, fieldAt name ([40] ++ l) = none) :
    field (statusPart s t) name = fieldIn name (t ++ codes ")") := by
  rw [statusPart_eq, field, find_word (word_of_all (statusWord_word s)) (h _), find_sep rfl (hsep _),
    find_word (fun c hc => by rw [List.mem_singleton.mp hc]; rfl) (hparen _), fieldIn]

theorem address_statusPart {s : DeliveryStatus} (h : ∀ l, addressAt name (named (codes "status") s.word ++ l) = none)
    (hsep : ∀ l, addressAt name (32 :: l) = none) (hparen : ∀ l, addressAt name ([40] ++ l) = none) :
    find isSep (addressAt name) true (statusPart s t) = addressIn name (t ++ codes ")") := by
  rw [statusPart_eq, find_word (word_of_all (statusWord_word s)) (h _), find_sep rfl (hsep _),
    find_word (fun c hc => by rw [List.mem_singleton.mp hc]; rfl) (hparen _), addressIn]

theorem statusMatch_statusPart (s : DeliveryStatus) : statusMatch (statusPart s t) = some (s.word, 32 :: 40 :: (t ++ codes ")")) := by
  rw [statusPart_eq]
  cases s <;> exact find_true_some rfl

theorem closing_append : closing (t ++ codes ")") = t := by
  simp [closing, show codes ")" = [41] from rfl]

theorem statusText_parens : statusText (32 :: 40 :: (t ++ codes ")")) = some t := by
  have h : (32 :: 40 :: (t ++ codes ")")).dropWhile isSpace = 40 :: (t ++ codes ")") := rfl
  rw [statusText, h]
  simp only [closing_append]

/-- A text that begins before the end of an address takes what follows it. -/
theorem length_statusText {body : Text} (h : statusText (x ++ 62 :: l) = some body) : l.length ≤ body.length := by
  rw [statusText, dropWhile_append_stop (by rfl)] at h
  cases hx : x.dropWhile isSpace with
  | nil =>
    rw [hx] at h
    cases h
  | cons c y =>
    rw [hx, List.cons_append] at h
    by_cases hc : c = 40
    · subst hc
      cases h
      rw [closing]
      split
      · simp only [List.length_dropLast, List.length_append, List.length_cons]
        omega
      · simp only [List.length_append, List.length_cons]
        omega
    · split at h
      next heq => exact absurd (List.cons.inj heq).1 hc
      next => cases h

end MailExpert.PostfixLog
