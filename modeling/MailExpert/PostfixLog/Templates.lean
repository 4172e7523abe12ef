import MailExpert.PostfixLog.Parts

/-!
# What is read of each template

For a line of each template, what the parser takes from behind the queue id is what was printed exactly when its texts are quiet.
-/

namespace MailExpert.PostfixLog

open Encodings (isSpace)
open Sanitizer (Text codes)
open Fields

variable {lc : LowerCase} {name part t l q svc program : Text} {parts : List Text} {a : Addr} {b : Option Addr} {r x y d : Token} {s : DeliveryStatus}
  {w : Words} {e : Printed} {template : Template}

/-- The parts behind the addresses. -/
def deliveryTail (r x y d : Token) (s : DeliveryStatus) (t : Text) : List Text :=
  [named (codes "relay") r.1, named (codes "delay") x.1, named (codes "delays") y.1, named (codes "dsn") d.1, statusPart s t]

def deliveryParts (a : Addr) (b : Option Addr) (tail : List Text) : List Text :=
  bracketed (codes "to") a :: ((b.map (bracketed (codes "orig_to"))).toList ++ tail)

/-- The texts in which a field may stand before the delivery's own. -/
def headTexts (a : Addr) (b : Option Addr) : List Text := (a :: b.toList).map fun a => a.1 ++ codes ">"

theorem field_delivery {tail : List Text} (hto : ∀ l, fieldAt name (codes "to" ++ codes "=<" ++ l) = none)
    (horig : ∀ l, fieldAt name (codes "orig_to" ++ codes "=<" ++ l) = none) (hname : name.all (fun c => !isSep c) = true)
    (hnil : fieldAt name [] = none) (hblank : ∀ l, fieldAt name (32 :: l) = none) :
    field (joined (deliveryParts a b tail)) name = (firstIn name (headTexts a b)).or (tail.findSome? fun part => field part name) := by
  rw [field_joined hname hnil hblank, deliveryParts, ← List.cons_append, List.findSome?_append, firstIn, headTexts]
  congr 1
  cases b with
  | none => simp [field_bracketed a (show (codes "to").all (fun c => !isSep c) = true by decide) hto]
  | some b =>
    simp [List.findSome?_cons, field_bracketed a (show (codes "to").all (fun c => !isSep c) = true by decide) hto,
      field_bracketed b (show (codes "orig_to").all (fun c => !isSep c) = true by decide) horig]

theorem relay_delivery : field (joined (deliveryParts a b (deliveryTail r x y d s t))) (codes "relay") =
    some ((firstIn (codes "relay") (headTexts a b)).getD r.1) := by
  rw [field_delivery (fun _ => rfl) (fun _ => rfl) (by decide) rfl fun _ => rfl, deliveryTail, List.findSome?_cons, field_named r rfl]
  cases firstIn (codes "relay") (headTexts a b) <;> rfl

theorem dsn_delivery : field (joined (deliveryParts a b (deliveryTail r x y d s t))) (codes "dsn") =
    some ((firstIn (codes "dsn") (headTexts a b)).getD d.1) := by
  rw [field_delivery (fun _ => rfl) (fun _ => rfl) (by decide) rfl fun _ => rfl, deliveryTail, List.findSome?_cons, field_word (named_word (by decide) r) rfl,
    List.findSome?_cons, field_word (named_word (by decide) x) rfl, List.findSome?_cons, field_word (named_word (by decide) y) rfl,
    List.findSome?_cons, field_named d rfl]
  cases firstIn (codes "dsn") (headTexts a b) <;> rfl

theorem user_delivery : field (joined (deliveryParts a b (deliveryTail r x y d s t))) (codes "sasl_username") =
    firstIn (codes "sasl_username") (headTexts a b ++ [t ++ codes ")"]) := by
  have hlast : field (statusPart s t) (codes "sasl_username") = fieldIn (codes "sasl_username") (t ++ codes ")") :=
    field_statusPart (by cases s <;> exact fun _ => rfl) (fun _ => rfl) fun _ => rfl
  rw [field_delivery (fun _ => rfl) (fun _ => rfl) (by decide) rfl fun _ => rfl, firstIn, firstIn, List.findSome?_append, deliveryTail,
    List.findSome?_cons, field_word (named_word (by decide) r) rfl, List.findSome?_cons, field_word (named_word (by decide) x) rfl,
    List.findSome?_cons, field_word (named_word (by decide) y) rfl, List.findSome?_cons, field_word (named_word (by decide) d) rfl,
    List.findSome?_cons, hlast, List.findSome?_cons]
  cases fieldIn (codes "sasl_username") (t ++ codes ")") <;> rfl

theorem deliveryTail_eq : deliveryTail r x y d s t = [named (codes "relay") r.1, named (codes "delay") x.1, named (codes "delays") y.1,
    named (codes "dsn") d.1] ++ [statusPart s t] := rfl

/-- An address under a name that only the status text can hold. -/
theorem address_tail (hname : ∃ d rest, name = d :: rest ∧ isSep d = false ∧ d ≠ 40)
    (hwords : ∀ m ∈ [codes "relay", codes "delay", codes "delays", codes "dsn", codes "status"], ∀ l, addressAt name (m ++ codes "=" ++ l) = none) :
    find isSep (addressAt name) true (joined (deliveryTail r x y d s t)) = addressIn name (t ++ codes ")") := by
  obtain ⟨e, rest, rfl, he, h40⟩ := hname
  have hsep (c : Nat) (l : Text) (hc : isSep c = true) : addressAt (e :: rest) (c :: l) = none := addressAt_sep ⟨e, rest, rfl, he⟩ hc
  have hword (m : Text) (hm : m ∈ [codes "relay", codes "delay", codes "delays", codes "dsn", codes "status"]) (v l : Text) :
      addressAt (e :: rest) (named m v ++ l) = none := by
    rw [named, List.append_assoc]
    exact hwords m hm _
  rw [deliveryTail_eq, address_words _ hsep, address_statusPart (fun l => hword (codes "status") (by simp) s.word l) (fun l => hsep 32 l rfl)]
  · intro l
    simp [addressAt, List.isPrefixOf?, h40]
  · intro w hw
    simp only [List.mem_cons, List.not_mem_nil, or_false] at hw
    obtain rfl | rfl | rfl | rfl := hw
    · exact ⟨named_word (by decide) r, hword _ (by simp) _⟩
    · exact ⟨named_word (by decide) x, hword _ (by simp) _⟩
    · exact ⟨named_word (by decide) y, hword _ (by simp) _⟩
    · exact ⟨named_word (by decide) d, hword _ (by simp) _⟩

theorem address_heads_from : find isSep (addressAt (codes "from")) true (joined (deliveryParts a b (deliveryTail r x y d s t))) =
    addressIn (codes "from") (t ++ codes ")") := by
  have hsep (c : Nat) (l : Text) (hc : isSep c = true) : addressAt (codes "from") (c :: l) = none := addressAt_sep ⟨102, [114, 111, 109], rfl, rfl⟩ hc
  have htail : find isSep (addressAt (codes "from")) true (joined (deliveryTail r x y d s t)) = addressIn (codes "from") (t ++ codes ")") :=
    address_tail ⟨102, [114, 111, 109], rfl, rfl, by decide⟩ (by
      intro m hm
      simp only [List.mem_cons, List.not_mem_nil, or_false] at hm
      obtain rfl | rfl | rfl | rfl | rfl := hm <;> exact fun _ => rfl)
  cases b with
  | none =>
    rw [deliveryParts, Option.map_none, Option.toList_none, List.nil_append, deliveryTail,
      address_bracketed a (by decide) (fun _ => rfl) (by decide) hsep, ← deliveryTail, htail]
  | some b =>
    rw [deliveryParts, Option.map_some, Option.toList_some, List.singleton_append,
      address_bracketed a (by decide) (fun _ => rfl) (by decide) hsep, deliveryTail,
      address_bracketed b (by decide) (fun _ => rfl) (by decide) hsep, ← deliveryTail, htail]

theorem address_heads_orig : find isSep (addressAt (codes "orig_to")) true (joined (deliveryParts a b (deliveryTail r x y d s t))) =
    b.elim (addressIn (codes "orig_to") (t ++ codes ")")) fun b => some b.1 := by
  have hsep (c : Nat) (l : Text) (hc : isSep c = true) : addressAt (codes "orig_to") (c :: l) = none :=
    addressAt_sep ⟨111, codes "rig_to", rfl, rfl⟩ hc
  cases b with
  | none =>
    have htail : find isSep (addressAt (codes "orig_to")) true (joined (deliveryTail r x y d s t)) = addressIn (codes "orig_to") (t ++ codes ")") :=
      address_tail ⟨111, codes "rig_to", rfl, rfl, by decide⟩ (by
        intro m hm
        simp only [List.mem_cons, List.not_mem_nil, or_false] at hm
        obtain rfl | rfl | rfl | rfl | rfl := hm <;> exact fun _ => rfl)
    rw [deliveryParts, Option.map_none, Option.toList_none, List.nil_append, deliveryTail,
      address_bracketed a (by decide) (fun _ => rfl) (by decide) hsep, ← deliveryTail, htail]
    rfl
  | some b =>
    rw [deliveryParts, Option.map_some, Option.toList_some, List.singleton_append,
      address_bracketed a (by decide) (fun _ => rfl) (by decide) hsep, address_head]
    rfl

theorem statusMatch_head {m : Text} (hm : m.all (fun c => !isSep c) = true) (hask : ∀ l, statusAt (m ++ codes "=<" ++ l) = none)
    (h : statusIn a.1 = none) : statusMatch (joined (bracketed m a :: q :: parts)) = statusMatch (joined (q :: parts)) := by
  rw [statusMatch_joined, status_bracketed a hm hask, h]
  rfl

/-- A status that an address names takes its text from behind the address, or has none. -/
theorem statusText_head {m : Text} (hm : m.all (fun c => !isSep c) = true) (hask : ∀ l, statusAt (m ++ codes "=<" ++ l) = none)
    (h : statusIn a.1 ≠ none) (ht : t.length < (joined (q :: parts)).length) :
    ((statusMatch (joined (bracketed m a :: q :: parts))).bind fun m => statusText m.2) ≠ some t := by
  obtain ⟨found, hfound⟩ := Option.ne_none_iff_exists'.mp h
  rw [statusMatch_joined, status_bracketed a hm hask, hfound]
  intro heq
  simp only [Option.map_some, Option.some_or, Option.bind_some, List.append_assoc, List.singleton_append] at heq
  have := length_statusText heq
  simp only [List.length_cons] at this
  omega

theorem length_lt_joined (h : statusPart s t ∈ parts) : t.length < (joined parts).length := by
  have := length_le_joined h
  rw [statusPart_eq] at this
  simp only [List.length_append, List.length_cons] at this
  omega

theorem statusMatch_word {w : Text} (hw : w.all (fun c => !isSep c) = true) (hask : statusAt w = none) : statusMatch w = none := find_one hw hask

theorem statusMatch_tail : statusMatch (joined (deliveryTail r x y d s t)) = some (s.word, 32 :: 40 :: (t ++ codes ")")) := by
  rw [deliveryTail, statusMatch_joined, statusMatch_word (named_word (by decide) r) rfl, statusMatch_joined,
    statusMatch_word (named_word (by decide) x) rfl, statusMatch_joined, statusMatch_word (named_word (by decide) y) rfl, statusMatch_joined,
    statusMatch_word (named_word (by decide) d) rfl, joined_singleton, statusMatch_statusPart]
  rfl

theorem statusMatch_delivery (h : ∀ c ∈ a :: b.toList, statusIn c.1 = none) :
    statusMatch (joined (deliveryParts a b (deliveryTail r x y d s t))) = some (s.word, 32 :: 40 :: (t ++ codes ")")) := by
  cases b with
  | none =>
    rw [deliveryParts, Option.map_none, Option.toList_none, List.nil_append, deliveryTail,
      statusMatch_head (by decide) (fun _ => rfl) (h a List.mem_cons_self), ← deliveryTail, statusMatch_tail]
  | some b =>
    rw [deliveryParts, Option.map_some, Option.toList_some, List.singleton_append, statusMatch_head (by decide) (fun _ => rfl) (h a List.mem_cons_self),
      deliveryTail, statusMatch_head (by decide) (fun _ => rfl) (h b (by simp)), ← deliveryTail, statusMatch_tail]

theorem statusText_delivery (h : ((statusMatch (joined (deliveryParts a b (deliveryTail r x y d s t)))).bind fun m => statusText m.2) = some t) :
    ∀ c ∈ a :: b.toList, statusIn c.1 = none := by
  have hmem : statusPart s t ∈ deliveryTail r x y d s t := by simp [deliveryTail]
  cases b with
  | none =>
    rw [deliveryParts, Option.map_none, Option.toList_none, List.nil_append] at h
    have ha : statusIn a.1 = none := by
      by_contra ha
      exact statusText_head (by decide) (fun _ => rfl) ha (length_lt_joined hmem) h
    intro c hc
    rwa [List.mem_singleton.mp hc]
  | some b =>
    rw [deliveryParts, Option.map_some, Option.toList_some, List.singleton_append] at h
    have ha : statusIn a.1 = none := by
      by_contra ha
      exact statusText_head (by decide) (fun _ => rfl) ha (length_lt_joined (List.mem_cons_of_mem _ hmem)) h
    rw [statusMatch_head (by decide) (fun _ => rfl) ha] at h
    have hb : statusIn b.1 = none := by
      by_contra hb
      exact statusText_head (by decide) (fun _ => rfl) hb (length_lt_joined hmem) h
    intro c hc
    obtain rfl | hc := List.mem_cons.mp hc
    · exact ha
    · rwa [List.mem_singleton.mp hc]

/-- A name the parser looks for an address under. -/
def addressNames : List Text := [codes "to", codes "orig_to", codes "from"]

def fieldNames : List Text := [codes "relay", codes "dsn", codes "sasl_username"]

theorem fieldNames_facts (h : name ∈ fieldNames) : name.all (fun c => !isSep c) = true ∧ fieldAt name [] = none ∧ ∀ l, fieldAt name (32 :: l) = none := by
  simp only [fieldNames, List.mem_cons, List.not_mem_nil, or_false] at h
  obtain rfl | rfl | rfl := h <;> exact ⟨by decide, rfl, fun _ => rfl⟩

/-! ## `from=<…>, …` -/

/-- The parts behind the sender. -/
theorem field_sender {tail : List Text} (h : name ∈ fieldNames) (htail : ∀ part ∈ tail, field part name = none) :
    field (joined (bracketed (codes "from") a :: tail)) name = fieldIn name (a.1 ++ codes ">") := by
  obtain ⟨hname, hnil, hblank⟩ := fieldNames_facts h
  have hhead : field (bracketed (codes "from") a) name = fieldIn name (a.1 ++ codes ">") := by
    simp only [fieldNames, List.mem_cons, List.not_mem_nil, or_false] at h
    obtain rfl | rfl | rfl := h <;> exact field_bracketed a (by decide) fun _ => rfl
  have hnone : (tail.findSome? fun part => field part name) = none := List.findSome?_eq_none_iff.mpr htail
  rw [field_joined hname hnil hblank, List.findSome?_cons, hhead, hnone]
  cases fieldIn name (a.1 ++ codes ">") <;> rfl

theorem address_sender {last : Text} {words : List Text} (h : name ∈ [codes "to", codes "orig_to"])
    (hwords : ∀ w ∈ words, w.all (fun c => !isSep c) = true ∧ ∀ name ∈ [codes "to", codes "orig_to"], ∀ l, addressAt name (w ++ l) = none) :
    find isSep (addressAt name) true (joined (bracketed (codes "from") a :: (words ++ [last]))) = find isSep (addressAt name) true last := by
  have hsep (c : Nat) (l : Text) (hc : isSep c = true) : addressAt name (c :: l) = none := by
    simp only [List.mem_cons, List.not_mem_nil, or_false] at h
    obtain rfl | rfl := h
    · exact addressAt_sep ⟨116, codes "o", rfl, rfl⟩ hc
    · exact addressAt_sep ⟨111, codes "rig_to", rfl, rfl⟩ hc
  have hhead (q : Text) (parts : List Text) : find isSep (addressAt name) true (joined (bracketed (codes "from") a :: q :: parts)) =
      find isSep (addressAt name) true (joined (q :: parts)) := by
    refine address_bracketed a (by decide) ?_ ?_ hsep
    · simp only [List.mem_cons, List.not_mem_nil, or_false] at h
      obtain rfl | rfl := h <;> exact fun _ => rfl
    · simp only [List.mem_cons, List.not_mem_nil, or_false] at h
      obtain rfl | rfl := h <;> decide
  have htail : find isSep (addressAt name) true (joined (words ++ [last])) = find isSep (addressAt name) true last :=
    address_words (fun w hw => ⟨(hwords w hw).1, (hwords w hw).2 name h⟩) hsep
  cases words with
  | nil => rw [List.nil_append, hhead, ← htail, List.nil_append]
  | cons w words => rw [List.cons_append, hhead, ← htail, List.cons_append]

/-- Words with a blank between them. -/
theorem find_blank {β : Type} {ask : Text → Option β} {x l : Text} (hx : x.all (fun c => !isSep c) = true) (hask : ∀ l, ask (x ++ l) = none)
    (hblank : ∀ l, ask (32 :: l) = none) : find isSep ask true (x ++ 32 :: l) = find isSep ask true l := by
  rw [find_word (word_of_all hx) (hask _), find_sep rfl (hblank _)]

theorem queuedLast_eq : named (codes "nrcpt") y.1 ++ codes " (queue active)" = named (codes "nrcpt") y.1 ++ 32 :: (codes "(queue" ++ 32 :: codes "active)") := by
  rw [show codes " (queue active)" = 32 :: (codes "(queue" ++ 32 :: codes "active)") by decide]

theorem find_queuedLast {β : Type} {ask : Text → Option β} (h : ∀ l, ask (codes "nrcpt=" ++ l) = none) (hqueue : ∀ l, ask (codes "(queue" ++ l) = none)
    (hactive : ask (codes "active)") = none) (hblank : ∀ l, ask (32 :: l) = none) :
    find isSep ask true (named (codes "nrcpt") y.1 ++ codes " (queue active)") = none := by
  rw [queuedLast_eq, find_blank (named_word (by decide) y) (fun l => ?_) hblank, find_blank (by decide) hqueue hblank,
    find_one (by decide) hactive]
  rw [named, show codes "nrcpt" ++ codes "=" = codes "nrcpt=" by decide, List.append_assoc]
  exact h _

def queuedParts (a : Addr) (x y : Token) : List Text :=
  [bracketed (codes "from") a, named (codes "size") x.1, named (codes "nrcpt") y.1 ++ codes " (queue active)"]

theorem field_queued (h : name ∈ fieldNames) : field (joined (queuedParts a x y)) name = fieldIn name (a.1 ++ codes ">") := by
  refine field_sender h fun part hpart => ?_
  simp only [List.mem_cons, List.not_mem_nil, or_false] at hpart
  simp only [fieldNames, List.mem_cons, List.not_mem_nil, or_false] at h
  obtain rfl | rfl := hpart
  · obtain rfl | rfl | rfl := h <;> exact field_word (named_word (by decide) x) rfl
  · obtain rfl | rfl | rfl := h <;> exact find_queuedLast (fun _ => rfl) (fun _ => rfl) rfl fun _ => rfl

theorem address_queued (h : name ∈ [codes "to", codes "orig_to"]) : find isSep (addressAt name) true (joined (queuedParts a x y)) = none := by
  have hparts : queuedParts a x y = bracketed (codes "from") a :: ([named (codes "size") x.1] ++ [named (codes "nrcpt") y.1 ++ codes " (queue active)"]) := rfl
  rw [hparts, address_sender h]
  · simp only [List.mem_cons, List.not_mem_nil, or_false] at h
    obtain rfl | rfl := h <;> exact find_queuedLast (fun _ => rfl) (fun _ => rfl) rfl fun _ => rfl
  · intro w hw
    obtain rfl := List.mem_singleton.mp hw
    refine ⟨named_word (by decide) x, fun name hname => ?_⟩
    simp only [List.mem_cons, List.not_mem_nil, or_false] at hname
    obtain rfl | rfl := hname <;> exact fun _ => rfl

theorem statusMatch_queued : statusMatch (joined (queuedParts a x y)) = (statusIn a.1).map fun m =>
    (m.1, m.2 ++ 62 :: 44 :: 32 :: joined [named (codes "size") x.1, named (codes "nrcpt") y.1 ++ codes " (queue active)"]) := by
  have hlast : statusMatch (named (codes "nrcpt") y.1 ++ codes " (queue active)") = none :=
    find_queuedLast (fun _ => rfl) (fun _ => rfl) rfl fun _ => rfl
  rw [queuedParts, statusMatch_joined, status_bracketed a (by decide) fun _ => rfl, statusMatch_joined, statusMatch_word (named_word (by decide) x) rfl,
    joined_singleton, hlast]
  cases statusIn a.1 <;> simp

def expiredParts (a : Addr) : List Text := [bracketed (codes "from") a, codes "status=expired", codes "returned to sender"]

theorem find_returned {β : Type} {ask : Text → Option β} (hreturned : ∀ l, ask (codes "returned" ++ l) = none) (hto : ∀ l, ask (codes "to" ++ 32 :: l) = none)
    (hsender : ask (codes "sender") = none) (hblank : ∀ l, ask (32 :: l) = none) : find isSep ask true (codes "returned to sender") = none := by
  rw [show codes "returned to sender" = codes "returned" ++ 32 :: (codes "to" ++ 32 :: codes "sender") by decide,
    find_blank (by decide) hreturned hblank, find_word (word_of_all (by decide)) (hto _), find_sep rfl (hblank _), find_one (by decide) hsender]

theorem field_expired (h : name ∈ fieldNames) : field (joined (expiredParts a)) name = fieldIn name (a.1 ++ codes ">") := by
  refine field_sender h fun part hpart => ?_
  simp only [List.mem_cons, List.not_mem_nil, or_false] at hpart
  simp only [fieldNames, List.mem_cons, List.not_mem_nil, or_false] at h
  obtain rfl | rfl := hpart
  · obtain rfl | rfl | rfl := h <;> exact field_word (by decide) rfl
  · obtain rfl | rfl | rfl := h <;> exact find_returned (fun _ => rfl) (fun _ => rfl) rfl fun _ => rfl

theorem address_expired (h : name ∈ [codes "to", codes "orig_to"]) : find isSep (addressAt name) true (joined (expiredParts a)) = none := by
  have hparts : expiredParts a = bracketed (codes "from") a :: ([codes "status=expired"] ++ [codes "returned to sender"]) := rfl
  rw [hparts, address_sender h]
  · simp only [List.mem_cons, List.not_mem_nil, or_false] at h
    obtain rfl | rfl := h <;> exact find_returned (fun _ => rfl) (fun _ => rfl) rfl fun _ => rfl
  · intro w hw
    obtain rfl := List.mem_singleton.mp hw
    refine ⟨by decide, fun name hname => ?_⟩
    simp only [List.mem_cons, List.not_mem_nil, or_false] at hname
    obtain rfl | rfl := hname <;> exact fun _ => rfl

theorem statusMatch_expired : statusMatch (joined (expiredParts a)) =
    some (((statusIn a.1).map fun m => (m.1, m.2 ++ 62 :: 44 :: 32 :: joined [codes "status=expired", codes "returned to sender"])).getD
      (codes "expired", codes ", returned to sender")) := by
  have htail : statusMatch (joined [codes "status=expired", codes "returned to sender"]) = some (codes "expired", codes ", returned to sender") := by
    decide +kernel
  rw [expiredParts, statusMatch_joined, status_bracketed a (by decide) fun _ => rfl, htail]
  cases statusIn a.1 <;> simp

/-- Behind an address no parenthesis is the first. -/
theorem statusText_before {x : Text} : statusText (x ++ 62 :: l) = none ↔ statusText x = none := by
  rw [statusText, statusText, dropWhile_append_stop (by rfl)]
  cases x.dropWhile isSpace with
  | nil => simp
  | cons c y =>
    by_cases hc : c = 40
    · subst hc
      simp
    · rw [List.cons_append]
      constructor
      · intro _
        split
        next heq => exact absurd (List.cons.inj heq).1 hc
        next => rfl
      · intro _
        split
        next heq => exact absurd (List.cons.inj heq).1 hc
        next => rfl

theorem find_messageId {β : Type} {ask : Text → Option β} (h : ∀ l, ask (codes "message-id=" ++ l) = none) :
    find isSep ask true (codes "message-id=" ++ t) = find isSep ask false t :=
  find_word (word_of_all (by decide)) (h _)

def clientParts (x y d : Token) (u : Text) : List Text :=
  [named (codes "client") (x.1 ++ codes "[" ++ y.1 ++ codes "]"), named (codes "sasl_method") d.1, named (codes "sasl_username") u]

theorem clientHost_word : (named (codes "client") (x.1 ++ codes "[" ++ y.1 ++ codes "]")).all (fun c => !isSep c) = true := by
  rw [named, List.all_append, List.all_append, List.all_append, List.all_append, List.all_append, x.2, y.2]
  rfl

theorem joined_client : joined (clientParts x y d t) =
    named (codes "client") (x.1 ++ codes "[" ++ y.1 ++ codes "]") ++ 44 :: 32 :: (named (codes "sasl_method") d.1 ++ 44 :: 32 :: (codes "sasl_username=" ++ t)) := by
  rw [clientParts, joined_cons, joined_cons, joined, List.intercalate_singleton, named, named, named]
  rfl

theorem find_client {β : Type} {ask : Text → Option β} (hclient : ∀ l, ask (codes "client=" ++ l) = none) (hmethod : ∀ l, ask (codes "sasl_method=" ++ l) = none)
    (hsep : ask (44 :: 32 :: (named (codes "sasl_method") d.1 ++ 44 :: 32 :: (codes "sasl_username=" ++ t))) = none ∧
      ask (44 :: 32 :: (codes "sasl_username=" ++ t)) = none ∧ ∀ l, ask (32 :: l) = none) :
    find isSep ask true (joined (clientParts x y d t)) = find isSep ask true (codes "sasl_username=" ++ t) := by
  rw [joined_client, find_word (word_of_all clientHost_word), find_sep rfl hsep.1, find_sep rfl (hsep.2.2 _),
    find_word (word_of_all (named_word (by decide) d)), find_sep rfl hsep.2.1, find_sep rfl (hsep.2.2 _)]
  · rw [named, show codes "sasl_method" ++ codes "=" = codes "sasl_method=" by decide, List.append_assoc]
    exact hmethod _
  · rw [named, show codes "client" ++ codes "=" = codes "client=" by decide, List.append_assoc]
    exact hclient _

/-! ## One template after the other -/

theorem eventOf_status : eventOf svc l (some s.word) = s.event := by
  cases s <;> rfl

theorem said_delivery : saidOf lc.apply svc (some q) (joined (Template.delivery program a b r x y d s w).parts) =
    (Template.delivery program a b r x y d s w).said lc q ↔ (Template.delivery program a b r x y d s w).Quiet lc := by
  have hparts : (Template.delivery program a b r x y d s w).parts = deliveryParts a b (deliveryTail r x y d s w.1) := rfl
  have hto : address lc.apply (joined (deliveryParts a b (deliveryTail r x y d s w.1))) (codes "to") = some (lc.apply a.1) := by
    rw [address, deliveryParts, address_head, Option.map_some]
  rw [hparts, saidOf, Template.said, Said.mk.injEq, relay_delivery, dsn_delivery, user_delivery, hto, address, address_heads_orig, address,
    address_heads_from]
  constructor
  · rintro ⟨-, -, -, horig, hfrom, hrelay, hdsn, -, htext, huser⟩
    refine ⟨statusText_delivery htext, Option.some.inj hrelay, Option.some.inj hdsn, huser, Option.map_eq_none_iff.mp hfrom, ?_⟩
    rintro rfl
    exact Option.map_eq_none_iff.mp horig
  · rintro ⟨hstatus, hrelay, hdsn, huser, hfrom, horig⟩
    rw [statusMatch_delivery hstatus]
    refine ⟨eventOf_status, rfl, rfl, ?_, ?_, congrArg some hrelay, congrArg some hdsn, rfl, statusText_parens, huser⟩
    · cases b with
      | none => exact Option.map_eq_none_iff.mpr (horig rfl)
      | some b => rfl
    · exact Option.map_eq_none_iff.mpr hfrom

theorem queued_line : joined (queuedParts a x y) = codes "from=<" ++ (a.1 ++ 62 :: (codes ", size=" ++
    (x.1 ++ codes ", nrcpt=" ++ y.1 ++ codes " (queue active)"))) := by
  rw [queuedParts, joined_cons, joined_cons, joined_singleton, bracketed, named, named, show codes ">" = [62] from rfl,
    show codes ", size=" = 44 :: 32 :: codes "size=" by decide, show codes ", nrcpt=" = 44 :: 32 :: codes "nrcpt=" by decide,
    show codes "from=<" = codes "from" ++ codes "=<" by decide, show codes "size=" = codes "size" ++ codes "=" by decide,
    show codes "nrcpt=" = codes "nrcpt" ++ codes "=" by decide]
  simp only [List.append_assoc, List.cons_append, List.nil_append]

theorem dropWhile_addr : (a.1 ++ 62 :: l).dropWhile (fun c => decide (c ≠ 62)) = 62 :: l := by
  have hmem : ∀ c ∈ a.1, decide (c ≠ 62) = true := fun c hc => by
    have h := List.all_eq_true.mp a.2 c hc
    simp only [Bool.and_eq_true, decide_eq_true_eq] at h
    exact decide_eq_true h.2
  rw [dropWhile_append_stop (by decide), List.dropWhile_eq_nil_iff.mpr hmem, List.nil_append]

theorem eventOf_queued : eventOf (codes "qmgr") (joined (queuedParts a x y)) none = .queued := by
  have hqueued : isQueued (joined (queuedParts a x y)) = true := by
    rw [queued_line, isQueued, isPrefixOf?_append]
    simp only [dropWhile_addr]
    rfl
  have hremoved (h : joined (queuedParts a x y) = codes "removed") : False := by
    rw [queued_line] at h
    exact absurd (List.cons.inj h).1 (by decide)
  have hmessage : (codes "message-id=").isPrefixOf (joined (queuedParts a x y)) = false := by
    rw [queued_line]
    rfl
  rw [eventOf, if_neg (by decide), Option.bind_none]
  simp only [hmessage, hqueued]
  rw [if_neg (by decide), if_neg fun h => hremoved h.2, if_neg fun h => absurd h.1 (by decide), if_neg fun h => absurd h.1 (by decide),
    if_neg fun h => absurd h.1 (by decide), if_pos ⟨trivial, trivial⟩]

theorem said_queued : saidOf lc.apply (codes "qmgr") (some q) (joined (Template.queued a x y).parts) = (Template.queued a x y).said lc q ↔
    (Template.queued a x y).Quiet lc := by
  have hparts : (Template.queued a x y).parts = queuedParts a x y := rfl
  have hfrom : address lc.apply (joined (queuedParts a x y)) (codes "from") = some (lc.apply a.1) := by
    rw [address, queuedParts, address_head, Option.map_some]
  rw [hparts, saidOf, Template.said, Said.mk.injEq, hfrom, address, address_queued (by simp), address, address_queued (by simp),
    field_queued (by simp [fieldNames]), field_queued (by simp [fieldNames]), field_queued (by simp [fieldNames]), statusMatch_queued]
  constructor
  · rintro ⟨-, -, -, -, -, hrelay, hdsn, hstatus, -, huser⟩
    refine ⟨by simpa using hstatus, ?_, huser⟩
    intro name hname
    simp only [List.mem_cons, List.not_mem_nil, or_false] at hname
    obtain rfl | rfl := hname
    · exact hrelay
    · exact hdsn
  · rintro ⟨hstatus, hfields, huser⟩
    rw [hstatus]
    exact ⟨eventOf_queued, rfl, rfl, rfl, rfl, hfields _ (by simp), hfields _ (by simp), rfl, rfl, huser⟩

theorem said_expired : saidOf lc.apply svc (some q) (joined (Template.expired a).parts) = (Template.expired a).said lc q ↔
    (Template.expired a).Quiet lc := by
  have hparts : (Template.expired a).parts = expiredParts a := rfl
  have hfrom : address lc.apply (joined (expiredParts a)) (codes "from") = some (lc.apply a.1) := by
    rw [address, expiredParts, address_head, Option.map_some]
  rw [hparts, saidOf, Template.said, Said.mk.injEq, hfrom, address, address_expired (by simp), address, address_expired (by simp),
    field_expired (by simp [fieldNames]), field_expired (by simp [fieldNames]), field_expired (by simp [fieldNames]), statusMatch_expired]
  constructor
  · rintro ⟨-, -, -, -, -, hrelay, hdsn, hstatus, htext, huser⟩
    refine ⟨?_, ?_, huser⟩
    · intro m hm
      rw [Option.mem_def.mp hm] at hstatus htext
      exact ⟨Option.some.inj hstatus, statusText_before.mp htext⟩
    · intro name hname
      simp only [List.mem_cons, List.not_mem_nil, or_false] at hname
      obtain rfl | rfl := hname
      · exact hrelay
      · exact hdsn
  · rintro ⟨hstatus, hfields, huser⟩
    cases hin : statusIn a.1 with
    | none => exact ⟨rfl, rfl, rfl, rfl, rfl, hfields _ (by simp), hfields _ (by simp), rfl, rfl, huser⟩
    | some m =>
      obtain ⟨hword, htext⟩ := hstatus m hin
      have hword : some m.1 = some (codes "expired") := congrArg some hword
      refine ⟨?_, rfl, rfl, rfl, rfl, hfields _ (by simp), hfields _ (by simp), hword, statusText_before.mpr htext, huser⟩
      rw [Option.map_some, Option.map_some, Option.getD_some, eventOf, if_pos hword]

theorem said_cleanup : saidOf lc.apply svc (some q) (codes "message-id=" ++ w.1.rdropWhile isSpace) = (Template.cleanup w).said lc q ↔
    (Template.cleanup w).Quiet lc := by
  rw [saidOf, Template.said, Said.mk.injEq, address, find_messageId fun _ => rfl, address, find_messageId fun _ => rfl, address, find_messageId fun _ => rfl,
    field, find_messageId fun _ => rfl, field, find_messageId fun _ => rfl, field, find_messageId fun _ => rfl, statusMatch, find_messageId fun _ => rfl]
  constructor
  · rintro ⟨-, -, hto, horig, hfrom, hrelay, hdsn, hstatus, -, huser⟩
    refine ⟨Option.map_eq_none_iff.mp hstatus, ?_, ?_, huser⟩
    · intro name hname
      simp only [List.mem_cons, List.not_mem_nil, or_false] at hname
      obtain rfl | rfl | rfl := hname
      · exact Option.map_eq_none_iff.mp hto
      · exact Option.map_eq_none_iff.mp horig
      · exact Option.map_eq_none_iff.mp hfrom
    · intro name hname
      simp only [List.mem_cons, List.not_mem_nil, or_false] at hname
      obtain rfl | rfl := hname
      · exact hrelay
      · exact hdsn
  · rintro ⟨hstatus, haddresses, hfields, huser⟩
    rw [show find isSep statusAt false (w.1.rdropWhile isSpace) = none from hstatus]
    have haddress (name : Text) (h : name ∈ [codes "to", codes "orig_to", codes "from"]) :
        (find isSep (addressAt name) false (w.1.rdropWhile isSpace)).map lc.apply = none :=
      Option.map_eq_none_iff.mpr (haddresses name h)
    exact ⟨rfl, rfl, haddress _ (by simp), haddress _ (by simp), haddress _ (by simp), hfields _ (by simp), hfields _ (by simp), rfl, rfl, huser⟩

theorem said_removed : saidOf lc.apply (codes "qmgr") (some q) (codes "removed") = Template.removed.said lc q := by
  rw [saidOf, Template.said, Said.mk.injEq]
  exact ⟨rfl, rfl, rfl, rfl, rfl, rfl, rfl, rfl, rfl, rfl⟩

end MailExpert.PostfixLog
