import MailExpert.Lib.Encodings
import MailExpert.Lib.Texts

/-!
# Transfer decoding

The three copies of the transfer decoding: of `decodeBody` and its `decodeQuotedPrintableToBuffer` in `services/imapManager.js`, of
`decodeAttachmentBuffer` there, and of `decodeBodyPart` in `services/messageParser.js`, up to the bytes that a charset decodes.
A buffer is read as ASCII first, which clears the high bit of its bytes.
-/

namespace MailExpert.BodyParts

open Encodings

/-- `text.replace(/=\r\n/g, '')` -/
def withoutCrlfBreaks : List Nat → List Nat := Texts.removeAll 0x3d [0xd, 0xa] 0

/-- `text.replace(/=\n/g, '')` -/
def withoutLfBreaks : List Nat → List Nat := Texts.removeAll 0x3d [0xa] 0

/-- The value of `[0-9A-Fa-f]`. -/
def hexValue (c : Nat) : Option Nat :=
  if 0x30 ≤ c ∧ c ≤ 0x39 then some (c - 0x30)
  else if 0x41 ≤ c ∧ c ≤ 0x46 then some (c - 0x37)
  else if 0x61 ≤ c ∧ c ≤ 0x66 then some (c - 0x57)
  else none

/-- The byte that two digits write. -/
def hexByte (c d : Nat) : Option UInt8 := do return .ofNat ((← hexValue c) * 16 + (← hexValue d))

/-- The loop over the text without its soft line breaks. -/
def unescape : List Nat → List UInt8
  | 0x3d :: c :: d :: l =>
    match hexByte c d with
    | some b => b :: unescape l
    | none => .ofNat 0x3d :: unescape (c :: d :: l)
  | c :: l => .ofNat c :: unescape l
  | [] => []

attribute [local simp] unescape

/-- What is decoded: a buffer, or a text that was decoded before. -/
inductive Input
  | buffer (bytes : List UInt8)
  | text (units : List Nat)

def Input.text' : Input → List Nat
  | .buffer bytes => ascii bytes
  | .text units => units

def decodeQuotedPrintableToBuffer (input : Input) : List UInt8 := unescape (withoutLfBreaks (withoutCrlfBreaks input.text'))

/-- The bytes that `decodeBody` decodes. -/
def decodeBody (buf : List UInt8) (encoding : String) : List UInt8 :=
  let enc := encoding.toLower
  if enc = "base64" then fromBase64 ((ascii buf).filter (!isSpace ·))
  else if enc = "quoted-printable" then decodeQuotedPrintableToBuffer (.buffer buf)
  else buf

/-- The bytes that `decodeBodyPart` decodes. -/
def decodeBodyPart (buf : List UInt8) (encoding : String) : List UInt8 :=
  let enc := encoding.toLower
  if enc = "base64" then fromBase64 ((ascii buf).filter (!isSpace ·))
  else if enc = "quoted-printable" then unescape (withoutLfBreaks (withoutCrlfBreaks (ascii buf)))
  else buf

def decodeAttachmentBuffer (buf : List UInt8) (encoding : String) : List UInt8 :=
  let enc := encoding.toLower
  if enc = "base64" then fromBase64 ((Utf8.decode buf).filter (!isSpace ·))
  else if enc = "quoted-printable" then unescape (withoutLfBreaks (withoutCrlfBreaks (ascii buf)))
  else buf

/-! ## Quoted-printable texts -/

def hexDigit (upper : Bool) (n : Nat) : UInt8 := .ofNat (if n < 10 then n + 0x30 else if upper then n + 0x37 else n + 0x57)

/-- What a quoted-printable text is written with. -/
inductive Piece
  /-- `=XX`, each digit in upper case or not. -/
  | escaped (b : UInt8) (upper upper' : Bool)
  | literal (b : UInt8) (h : b ≠ 0x3d)
  /-- A soft line break, with CRLF or LF. -/
  | soft (crlf : Bool)

namespace Piece

def text : Piece → List UInt8
  | escaped b upper upper' => [0x3d, hexDigit upper (b.toNat / 16), hexDigit upper' (b.toNat % 16)]
  | literal b _ => [b]
  | soft true => [0x3d, 0xd, 0xa]
  | soft false => [0x3d, 0xa]

def bytes : Piece → List UInt8
  | escaped b _ _ | literal b _ => [b]
  | soft _ => []

end Piece

variable {p : Piece} {ps qs : List Piece} {b : UInt8} {buf bytes : List UInt8} {l : List Nat}

/-- The pieces as the decoders read them. -/
def read (ps : List Piece) : List Nat := ascii (ps.flatMap Piece.text)

theorem read_cons : read (p :: ps) = ascii p.text ++ read ps := by simp [read, ascii]

theorem ascii_hexDigit (upper : Bool) {n : Nat} (h : n < 16) :
    hexValue ((hexDigit upper n).toNat % 128) = some n ∧ (hexDigit upper n).toNat % 128 ≠ 0x3d ∧ (hexDigit upper n).toNat % 128 ≠ 0xd ∧
      (hexDigit upper n).toNat % 128 ≠ 0xa := by
  cases upper <;> revert n <;> decide

/-- What does not begin with `=` begins with a literal. -/
theorem read_eq_cons {c : Nat} (h : read ps = c :: l) (hc : c ≠ 0x3d) : ∃ b hb qs, ps = .literal b hb :: qs ∧ read qs = l := by
  cases ps with
  | nil => cases h
  | cons p qs =>
    rw [read_cons] at h
    cases p with
    | literal b hb => exact ⟨b, hb, qs, rfl, (List.cons.inj h).2⟩
    | escaped => exact absurd (List.cons.inj h).1.symm hc
    | soft crlf => cases crlf <;> exact absurd (List.cons.inj h).1.symm hc

theorem read_eq_append {e : List Nat} (h : read ps = e ++ l) (he : 0x3d ∉ e) : ∃ qs, qs.Sublist ps ∧ read qs = l := by
  induction e generalizing ps with
  | nil => exact ⟨ps, .refl ps, h⟩
  | cons c e ih =>
    rw [List.mem_cons, not_or] at he
    obtain ⟨b, hb, qs, rfl, hqs⟩ := read_eq_cons h (Ne.symm he.1)
    obtain ⟨qs', hsub, hqs'⟩ := ih hqs he.2
    exact ⟨qs', .cons _ hsub, hqs'⟩

/-- Every byte above 127 is escaped. -/
def SevenBit (ps : List Piece) : Prop := ∀ b hb, .literal b hb ∈ ps → b.toNat < 128

theorem SevenBit.sublist (h : SevenBit ps) (hsub : qs.Sublist ps) : SevenBit qs := fun b hb hmem => h b hb (hsub.mem hmem)

/-- The line end of a soft line break. -/
def ending (crlf : Bool) : List Nat := if crlf then [0xd, 0xa] else [0xa]

theorem equals_notMem_ending {crlf : Bool} : 0x3d ∉ ending crlf := by cases crlf <;> decide

/-- Digits end no line. -/
theorem not_ending_hex {crlf upper : Bool} {n : Nat} (h : n < 16) : ¬ending crlf <+: (hexDigit upper n).toNat % 128 :: l := by
  obtain ⟨-, -, hcr, hlf⟩ := ascii_hexDigit upper h
  cases crlf
  · exact fun hpre => hlf (List.cons_prefix_cons.mp hpre).1.symm
  · exact fun hpre => hcr (List.cons_prefix_cons.mp hpre).1.symm

theorem removeAll_soft {crlf crlf' : Bool} (h : crlf' ≠ crlf) :
    Texts.removeAll 0x3d (ending crlf) 0 (ascii (Piece.soft crlf').text ++ l) =
      ascii (Piece.soft crlf').text ++ Texts.removeAll 0x3d (ending crlf) 0 l := by
  cases crlf with
  | true =>
    obtain rfl : crlf' = false := by simpa using h
    change Texts.removeAll 0x3d [0xd, 0xa] 0 (0x3d :: 0xa :: l) = 0x3d :: 0xa :: _
    rw [Texts.removeAll_cons fun _ hpre => absurd (List.cons_prefix_cons.mp hpre).1 (by decide), Texts.removeAll_ne (by decide)]
    rfl
  | false =>
    obtain rfl : crlf' = true := by simpa using h
    change Texts.removeAll 0x3d [0xa] 0 (0x3d :: 0xd :: 0xa :: l) = 0x3d :: 0xd :: 0xa :: _
    rw [Texts.removeAll_cons fun _ hpre => absurd (List.cons_prefix_cons.mp hpre).1 (by decide), Texts.removeAll_ne (by decide),
      Texts.removeAll_ne (by decide)]
    rfl

/-- One pass takes out its soft line breaks, and what only looks like one after the high bits are gone. -/
theorem removeAll_read (crlf : Bool) (ps : List Piece) : ∃ qs, qs.Sublist ps ∧ Texts.removeAll 0x3d (ending crlf) 0 (read ps) = read qs ∧
    .soft crlf ∉ qs ∧ (SevenBit ps → qs.flatMap Piece.bytes = ps.flatMap Piece.bytes) := by
  induction hn : ps.length using Nat.strong_induction_on generalizing ps with
  | _ n ih =>
  cases ps with
  | nil => exact ⟨[], .refl _, rfl, List.not_mem_nil, fun _ => rfl⟩
  | cons p ps =>
    have hlt {qs : List Piece} (h : qs.Sublist ps) : qs.length < n := by
      have hle := h.length_le
      rw [← hn, List.length_cons]
      omega
    obtain ⟨qs, hsub, hqs, hsoft, hbytes⟩ := ih ps.length (hlt (.refl ps)) ps rfl
    have hkeep (hp : p ≠ .soft crlf) (h : Texts.removeAll 0x3d (ending crlf) 0 (ascii p.text ++ read ps) = ascii p.text ++ read qs) :
        ∃ qs, qs.Sublist (p :: ps) ∧ Texts.removeAll 0x3d (ending crlf) 0 (ascii p.text ++ read ps) = read qs ∧ .soft crlf ∉ qs ∧
          (SevenBit (p :: ps) → qs.flatMap Piece.bytes = (p :: ps).flatMap Piece.bytes) := by
      refine ⟨p :: qs, .cons_cons p hsub, h.trans read_cons.symm, ?_, fun hseven => ?_⟩
      · rw [List.mem_cons, not_or]
        exact ⟨hp.symm, hsoft⟩
      · rw [List.flatMap_cons, List.flatMap_cons, hbytes (hseven.sublist (List.sublist_cons_self p ps))]
    rw [read_cons]
    cases p with
    | escaped b upper upper' =>
      refine hkeep (by simp) ?_
      have hhigh : b.toNat / 16 < 16 := by
        have := b.toNat_lt
        omega
      have hlow : b.toNat % 16 < 16 := by omega
      have h1 := (ascii_hexDigit upper hhigh).2.1
      have h2 := (ascii_hexDigit upper' hlow).2.1
      change Texts.removeAll 0x3d (ending crlf) 0 (0x3d :: _ :: _ :: read ps) = 0x3d :: _ :: _ :: read qs
      rw [Texts.removeAll_cons fun _ => not_ending_hex hhigh, Texts.removeAll_ne h1,
        Texts.removeAll_ne h2, hqs]
    | literal b hb =>
      by_cases hbreak : b.toNat % 128 = 0x3d ∧ ending crlf <+: read ps
      · obtain ⟨heq, l, hl⟩ := hbreak
        obtain ⟨ps', hsub', hl'⟩ := read_eq_append hl.symm equals_notMem_ending
        obtain ⟨qs', hsub'', hqs', hsoft', -⟩ := ih ps'.length (hlt hsub') ps' rfl
        refine ⟨qs', (hsub''.trans hsub').cons _, ?_, hsoft', fun hseven => absurd (hseven b hb List.mem_cons_self) fun hlt => ?_⟩
        · change Texts.removeAll 0x3d (ending crlf) 0 (b.toNat % 128 :: read ps) = _
          rw [heq, ← hl, Texts.removeAll_match, ← hl', hqs']
        · rw [Nat.mod_eq_of_lt hlt] at heq
          exact hb (UInt8.toNat_inj.mp heq)
      · refine hkeep (by simp) ?_
        change Texts.removeAll 0x3d (ending crlf) 0 (b.toNat % 128 :: read ps) = b.toNat % 128 :: read qs
        rw [Texts.removeAll_cons fun h hpre => hbreak ⟨h, hpre⟩, hqs]
    | soft crlf' =>
      by_cases hc : crlf' = crlf
      · subst hc
        have hmatch : Texts.removeAll 0x3d (ending crlf') 0 (ascii (Piece.soft crlf').text ++ read ps) =
            Texts.removeAll 0x3d (ending crlf') 0 (read ps) := by cases crlf' <;> exact Texts.removeAll_match
        exact ⟨qs, hsub.cons _, hmatch.trans hqs, hsoft, fun hseven => hbytes (hseven.sublist (List.sublist_cons_self _ ps))⟩
      · refine hkeep (by simpa using hc) ?_
        rw [removeAll_soft hc, hqs]

/-! ## The bytes that come out -/

/-- Bytes above 127 weigh more: nothing that was read as ASCII makes one. -/
def weight (b : UInt8) : Nat := if b.toNat < 128 then 1 else 3

def Piece.weight : Piece → Nat
  | escaped b _ _ => BodyParts.weight b
  | literal _ _ => 1
  | soft _ => 0

theorem hexByte_hexDigit {upper upper' : Bool} :
    hexByte ((hexDigit upper (b.toNat / 16)).toNat % 128) ((hexDigit upper' (b.toNat % 16)).toNat % 128) = some b := by
  have hb := b.toNat_lt
  rw [hexByte, (ascii_hexDigit _ (by omega)).1, (ascii_hexDigit _ (by omega)).1]
  refine congrArg some (UInt8.toNat_inj.mp ?_)
  rw [UInt8.toNat_ofNat']
  omega

theorem unescape_escaped {upper upper' : Bool} :
    unescape (read (.escaped b upper upper' :: ps)) = b :: unescape (read ps) := by
  rw [read_cons]
  change unescape (0x3d :: _ :: _ :: read ps) = _
  rw [unescape, hexByte_hexDigit]

theorem unescape_cons {c : Nat} (h : c ≠ 0x3d) : unescape (c :: l) = .ofNat c :: unescape l := by
  rw [unescape]
  rintro d d' l' rfl
  exact absurd rfl h

/-- An `=` is decoded with two digits after it, or stands for itself. -/
theorem unescape_equals : (∃ c d l' b, l = c :: d :: l' ∧ hexByte c d = some b ∧ unescape (0x3d :: l) = b :: unescape l') ∨
    unescape (0x3d :: l) = .ofNat 0x3d :: unescape l := by
  match l with
  | [] => exact .inr rfl
  | [c] => exact .inr rfl
  | c :: d :: l' =>
    cases h : hexByte c d with
    | none => exact .inr (by rw [unescape, h])
    | some b => exact .inl ⟨c, d, l', b, rfl, h, by rw [unescape, h]⟩

theorem hexByte_ne {c d : Nat} (h : hexByte c d = some b) : c ≠ 0x3d ∧ d ≠ 0x3d := by
  constructor
  · rintro rfl
    cases h
  · rintro rfl
    obtain ⟨x, -, h⟩ := Option.bind_eq_some_iff.mp h
    cases h

theorem weight_ofNat {c : Nat} (h : c < 128) : weight (.ofNat c) = 1 := by
  rw [weight, if_pos]
  rw [UInt8.toNat_ofNat']
  omega

theorem weight_unescape (ps : List Piece) (hsoft : ∀ crlf, .soft crlf ∉ ps) :
    ((unescape (read ps)).map weight).sum ≤ (ps.map Piece.weight).sum := by
  induction hn : ps.length using Nat.strong_induction_on generalizing ps with
  | _ n ih =>
  cases ps with
  | nil => exact le_rfl
  | cons p ps =>
    have hrest := ih ps.length (by simp [← hn]) ps (fun crlf h => hsoft crlf (List.mem_cons_of_mem _ h)) rfl
    cases p with
    | escaped b upper upper' =>
      rw [unescape_escaped]
      exact Nat.add_le_add_left hrest _
    | soft crlf => exact absurd List.mem_cons_self (hsoft crlf)
    | literal b hb =>
      have hmod : b.toNat % 128 < 128 := Nat.mod_lt _ (by decide)
      have hone (h : unescape (b.toNat % 128 :: read ps) = .ofNat (b.toNat % 128) :: unescape (read ps)) :
          ((unescape (b.toNat % 128 :: read ps)).map weight).sum ≤ 1 + (ps.map Piece.weight).sum := by
        rw [h, List.map_cons, List.sum_cons, weight_ofNat hmod]
        exact Nat.add_le_add_left hrest 1
      change ((unescape (b.toNat % 128 :: read ps)).map weight).sum ≤ 1 + (ps.map Piece.weight).sum
      by_cases heq : b.toNat % 128 = 0x3d
      · rw [heq] at hone ⊢
        rcases unescape_equals (l := read ps) with ⟨c, d, l', b', hl, hhex, hout⟩ | hout
        · -- two literals are the digits
          obtain ⟨hc, hd⟩ := hexByte_ne hhex
          obtain ⟨b₁, hb₁, ps₁, rfl, hps₁⟩ := read_eq_cons hl hc
          obtain ⟨b₂, hb₂, ps₂, rfl, rfl⟩ := read_eq_cons hps₁ hd
          have hrest₂ := ih ps₂.length (by simp [← hn]; omega) ps₂
            (fun crlf h => hsoft crlf (List.mem_cons_of_mem _ (List.mem_cons_of_mem _ (List.mem_cons_of_mem _ h)))) rfl
          have hweight : weight b' ≤ 3 := by
            unfold weight
            split <;> omega
          rw [hout]
          simp only [List.map_cons, List.sum_cons, Piece.weight]
          omega
        · exact hone hout
      · exact hone (unescape_cons heq)

theorem unescape_sevenBit (hsoft : ∀ crlf, .soft crlf ∉ ps) (hseven : SevenBit ps) : unescape (read ps) = ps.flatMap Piece.bytes := by
  induction ps with
  | nil => rfl
  | cons p ps ih =>
    have hrest := ih (fun crlf h => hsoft crlf (List.mem_cons_of_mem _ h)) (hseven.sublist (List.sublist_cons_self p ps))
    cases p with
    | escaped b upper upper' =>
      rw [unescape_escaped, hrest]
      rfl
    | soft crlf => exact absurd List.mem_cons_self (hsoft crlf)
    | literal b hb =>
      have hmod : b.toNat % 128 = b.toNat := Nat.mod_eq_of_lt (hseven b hb List.mem_cons_self)
      change unescape (b.toNat % 128 :: read ps) = b :: _
      rw [hmod, unescape_cons fun h => hb (UInt8.toNat_inj.mp h), UInt8.ofNat_toNat, hrest]
      rfl

/-! ## The three decoders -/

/-- The pieces weigh what they are read as, unless a byte above 127 is literal. -/
theorem sevenBit_of_weight (h : ((ps.flatMap Piece.bytes).map weight).sum ≤ (ps.map Piece.weight).sum) : SevenBit ps := by
  have hle (p : Piece) : p.weight ≤ (p.bytes.map weight).sum := by
    cases p with
    | escaped => exact le_rfl
    | soft => exact le_rfl
    | literal b hb =>
      change 1 ≤ weight b
      unfold weight
      split <;> omega
  have hsum (qs : List Piece) : (qs.map Piece.weight).sum ≤ ((qs.flatMap Piece.bytes).map weight).sum := by
    induction qs with
    | nil => exact le_rfl
    | cons p qs ih =>
      rw [List.flatMap_cons, List.map_append, List.sum_append]
      exact Nat.add_le_add (hle p) ih
  induction ps with
  | nil => exact fun b hb hmem => absurd hmem List.not_mem_nil
  | cons p ps ih =>
    rw [List.flatMap_cons, List.map_append, List.sum_append, List.map_cons, List.sum_cons] at h
    have hp := hle p
    have hps := hsum ps
    intro b hb hmem
    rcases List.mem_cons.mp hmem with rfl | hmem
    · change weight b + _ ≤ 1 + _ at h
      by_contra hhigh
      have hweight : weight b = 3 := if_neg hhigh
      omega
    · exact ih (by omega) b hb hmem

/-- The bytes of a quoted-printable text come out exactly when those above 127 are escaped. -/
theorem decodeQuotedPrintable_iff :
    unescape (withoutLfBreaks (withoutCrlfBreaks (read ps))) = ps.flatMap Piece.bytes ↔ SevenBit ps := by
  obtain ⟨qs, hsub, hqs, hcrlf, hbytes⟩ := removeAll_read true ps
  obtain ⟨qs', hsub', hqs', hlf, hbytes'⟩ := removeAll_read false qs
  have hsoft : ∀ crlf, .soft crlf ∉ qs' := fun crlf hmem => by
    cases crlf with
    | true => exact hcrlf (hsub'.mem hmem)
    | false => exact hlf hmem
  have hout : unescape (withoutLfBreaks (withoutCrlfBreaks (read ps))) = unescape (read qs') := by
    rw [← hqs', ← hqs]
    rfl
  rw [hout]
  refine ⟨fun h => ?_, fun hseven => ?_⟩
  · refine sevenBit_of_weight ?_
    rw [← h]
    exact (weight_unescape qs' hsoft).trans (((hsub'.trans hsub).map _).sum_le_sum fun _ _ => Nat.zero_le _)
  · rw [unescape_sevenBit hsoft (hseven.sublist (hsub'.trans hsub)), hbytes' (hseven.sublist hsub), hbytes hseven]

variable {encoding : String}

/-- A base64 text, wherever its lines end. -/
def IsBase64 (bytes text : List UInt8) : Prop := (text.map (·.toNat)).filter (fun c => c ≠ 0xd ∧ c ≠ 0xa) = toBase64 bytes

theorem IsBase64.ascii {text : List UInt8} (h : IsBase64 bytes text) : ∀ b ∈ text, b.toNat < 128 := by
  intro b hb
  by_cases hbreak : b.toNat ≠ 0xd ∧ b.toNat ≠ 0xa
  · have hmem : b.toNat ∈ toBase64 bytes := h ▸ List.mem_filter.mpr ⟨List.mem_map.mpr ⟨b, hb, rfl⟩, by simpa using hbreak⟩
    exact (toBase64_plain hmem).1
  · rw [not_and_or, not_not, not_not] at hbreak
    omega

theorem ascii_of_sevenBit (h : ∀ b ∈ buf, b.toNat < 128) : Encodings.ascii buf = buf.map (·.toNat) :=
  List.map_congr_left fun b hb => Nat.mod_eq_of_lt (h b hb)

/-- White space is taken out of the text before it is decoded. -/
theorem fromBase64_isBase64 {text : List UInt8} (h : IsBase64 bytes text) :
    fromBase64 ((text.map (·.toNat)).filter (!isSpace ·)) = bytes := by
  have hfilter : (text.map (·.toNat)).filter (!isSpace ·) = toBase64 bytes := by
    rw [← h]
    refine List.filter_congr fun c hc => ?_
    by_cases hbreak : c ≠ 0xd ∧ c ≠ 0xa
    · have hmem : c ∈ toBase64 bytes := h ▸ List.mem_filter.mpr ⟨hc, by simpa using hbreak⟩
      simp [(toBase64_plain hmem).2, hbreak.1, hbreak.2]
    · rw [not_and_or, not_not, not_not] at hbreak
      rcases hbreak with rfl | rfl <;> rfl
  rw [hfilter, fromBase64_toBase64]

def Recovers (encoding : String) (buf bytes : List UInt8) : Prop :=
  (encoding.toLower = "quoted-printable" → decodeQuotedPrintableToBuffer (.buffer buf) = bytes) ∧ decodeBody buf encoding = bytes ∧
    decodeBodyPart buf encoding = bytes ∧ decodeAttachmentBuffer buf encoding = bytes

def Agree (encoding : String) (buf : List UInt8) : Prop :=
  decodeBody buf encoding = decodeBodyPart buf encoding ∧ decodeBodyPart buf encoding = decodeAttachmentBuffer buf encoding

attribute [local simp] Recovers Agree decodeBody decodeBodyPart decodeAttachmentBuffer decodeQuotedPrintableToBuffer Input.text'

theorem recovers_quotedPrintable (h : encoding.toLower = "quoted-printable") :
    Recovers encoding buf bytes ↔ unescape (withoutLfBreaks (withoutCrlfBreaks (ascii buf))) = bytes := by
  simp [h]

theorem agree_quotedPrintable (h : encoding.toLower = "quoted-printable") : Agree encoding buf := by
  simp [h]

theorem agree_base64 (h : encoding.toLower = "base64") (hbuf : ∀ b ∈ buf, b.toNat < 128) : Agree encoding buf := by
  simp [h, ascii_of_sevenBit hbuf, Utf8.decode_of_ascii hbuf]

theorem recovers_base64 {text : List UInt8} (h : encoding.toLower = "base64") (htext : IsBase64 bytes text) : Recovers encoding text bytes := by
  simp [h, ascii_of_sevenBit htext.ascii, Utf8.decode_of_ascii htext.ascii, fromBase64_isBase64 htext]

end MailExpert.BodyParts
