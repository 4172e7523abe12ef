import MailExpert.Lib.Pattern

/-!
# The guard against backtracking

`isDangerousRegex` of `services/inboxRules.js`, and which patterns with nested quantifiers it refuses. `Pattern` is the structure of a regular
expression as the scan sees it: escapes, character classes, groups, quantifiers and plain characters. What `new RegExp` takes is a parameter.
-/

namespace MailExpert.InboxRules.Backtracking

/-- The characters that the scan takes for a quantifier. -/
def isMark (c : Char) : Bool := c = '*' || c = '+' || c = '{' || c = '?'

def afterClass : List Char → List Char
  | [] => []
  | ']' :: src => src
  | '\\' :: _ :: src => afterClass src
  | _ :: src => afterClass src

theorem length_afterClass (src : List Char) : (afterClass src).length ≤ src.length := by
  fun_induction afterClass src with
  | case1 => simp
  | case2 => simp
  | case3 _ src ih => simp only [List.length_cons]; omega
  | case4 _ src _ _ ih => simp only [List.length_cons]; omega

def mark : List Bool → List Bool
  | [] => []
  | _ :: groupHasQuant => true :: groupHasQuant

/-- The loop of `isDangerousRegex`: whether a quantifier follows a group that has one. -/
def scan (groupHasQuant : List Bool) : List Char → Bool
  | [] => false
  | c :: src =>
    if c = '\\' then scan groupHasQuant (src.drop 1)
    else if c = '[' then scan groupHasQuant (afterClass src)
    else if c = '(' then scan (false :: groupHasQuant) src
    else if isMark c then scan (mark groupHasQuant) src
    else if c = ')' then
      let inner := groupHasQuant.headD false
      if inner && src.head?.any isMark then true else scan groupHasQuant.tail src
    else scan groupHasQuant src
termination_by src => src.length
decreasing_by
  all_goals simp only [List.length_drop, List.length_cons]
  · omega
  · have := length_afterClass src
    omega
  all_goals omega

/-- `src.length` -/
def units (src : List Char) : Nat := (src.map fun c => if c.toNat < 0x10000 then 1 else 2).sum

/-- `/[+*]/` at the start. -/
def repeats : List Char → Bool
  | c :: _ => c = '+' || c = '*'
  | [] => false

/-- `/\(.*[+*]\).*[+*]|\(.*\|.*\).*[+*]/` -/
def slowShape (src : List Char) : Bool :=
  src.tails.any fun
    | '(' :: src => (Pattern.gaps src).any fun rest =>
      (match rest with
      | c :: ')' :: rest => repeats [c] && (Pattern.gaps rest).any repeats
      | _ => false) ||
      match rest with
      | '|' :: rest => (Pattern.gaps rest).any fun
        | ')' :: rest => (Pattern.gaps rest).any repeats
        | _ => false
      | _ => false
    | _ => false

/-- For texts; `compiles` is whether `new RegExp(src)` does not throw. -/
def isDangerousRegex (compiles : List Char → Bool) (src : List Char) : Bool :=
  src = [] || units src > 200 || slowShape src || scan [] src || !compiles src

/-! ## Patterns -/

/-- A character that stands for itself, or for anything but a group, a class or a quantifier. -/
def isPlain (c : Char) : Bool := c ≠ '\\' && c ≠ '[' && c ≠ '(' && c ≠ ')' && c ≠ '*' && c ≠ '+' && c ≠ '?'

inductive Piece
  | char (c : Char) (plain : isPlain c = true)
  | escape (c : Char)

def Piece.text : Piece → List Char
  | char c _ => [c]
  | escape c => ['\\', c]

inductive ClassPiece
  | char (c : Char) (plain : c ≠ ']' ∧ c ≠ '\\')
  | escape (c : Char)

def ClassPiece.text : ClassPiece → List Char
  | char c _ => [c]
  | escape c => ['\\', c]

inductive Quantifier
  | star
  | plus
  | optional
  /-- `{n}`, `{n,}` or `{n,m}` -/
  | bounds (text : List Char) (digits : ∀ c ∈ text, c.isDigit = true ∨ c = ',')

def Quantifier.text : Quantifier → List Char
  | star => ['*']
  | plus => ['+']
  | optional => ['?']
  | bounds text _ => '{' :: text ++ ['}']

/-- A pattern, piece after piece. -/
inductive Pattern
  | nil
  | piece (piece : Piece) (rest : Pattern)
  | charClass (pieces : List ClassPiece) (rest : Pattern)
  | quantifier (quantifier : Quantifier) (lazy : Bool) (rest : Pattern)
  /-- `head` is what follows the `?` of a group that has one: `:`, `=`, `!`, `<name>` and so on. -/
  | group (head : Option (List Piece)) (body rest : Pattern)

namespace Pattern

def source : Pattern → List Char
  | nil => []
  | piece p rest => p.text ++ rest.source
  | charClass pieces rest => '[' :: pieces.flatMap ClassPiece.text ++ ']' :: rest.source
  | quantifier q lazy rest => q.text ++ (if lazy then ['?'] else []) ++ rest.source
  | group head body rest => '(' :: head.elim [] (fun pieces => '?' :: pieces.flatMap Piece.text) ++ body.source ++ ')' :: rest.source

/-- At any depth. -/
def hasQuantifier : Pattern → Bool
  | nil => false
  | piece _ rest | charClass _ rest => rest.hasQuantifier
  | quantifier .. => true
  | group _ body rest => body.hasQuantifier || rest.hasQuantifier

def startsWithQuantifier : Pattern → Bool
  | quantifier .. => true
  | _ => false

/-- A group that has a quantifier is followed by one. -/
def nested : Pattern → Bool
  | nil => false
  | piece _ rest | charClass _ rest | quantifier _ _ rest => rest.nested
  | group _ body rest => body.hasQuantifier && rest.startsWithQuantifier || body.nested || rest.nested


/-- What the scan sees of the pattern outside its groups. -/
def marked : Pattern → Bool
  | nil => false
  | piece p rest => p.text = ['{'] || rest.marked
  | charClass _ rest | group _ _ rest => rest.marked
  | quantifier .. => true

def startsWithMark : Pattern → Bool
  | piece p _ => p.text = ['{']
  | quantifier .. => true
  | _ => false

/-- A group with a mark outside its inner groups, the `?` of its head included, is followed by a mark. -/
def refused : Pattern → Bool
  | nil => false
  | piece _ rest | charClass _ rest | quantifier _ _ rest => rest.refused
  | group head body rest => (head.isSome || body.marked) && rest.startsWithMark || body.refused || rest.refused

/-- A group that is followed by a quantifier has its own only in inner groups. -/
def missed : Pattern → Bool
  | nil => false
  | piece _ rest | charClass _ rest | quantifier _ _ rest => rest.missed
  | group head body rest => head.isNone && !body.marked && body.hasQuantifier && rest.startsWithQuantifier || body.missed || rest.missed

variable {p : Pattern}

theorem startsWithMark_of_quantifier (h : p.startsWithQuantifier = true) : p.startsWithMark = true := by
  cases p <;> first | rfl | cases h

/-- What the scan may miss is a group whose quantifiers are all in inner groups. -/
theorem nested_iff : p.refused = true ∨ p.nested = true ↔ p.refused = true ∨ p.missed = true := by
  induction p with
  | nil => simp [nested, missed]
  | piece _ rest ih => simpa [nested, missed, refused] using ih
  | charClass _ rest ih => simpa [nested, missed, refused] using ih
  | quantifier _ _ rest ih => simpa [nested, missed, refused] using ih
  | group head body rest ihbody ihrest =>
    simp only [nested, missed, refused, Bool.or_eq_true, Bool.and_eq_true]
    constructor
    · rintro (h | (⟨hbody, hrest⟩ | h) | h)
      · exact .inl h
      · cases hown : (head.isSome || body.marked) with
        | true => exact .inl (.inl (.inl ⟨by simpa using hown, startsWithMark_of_quantifier hrest⟩))
        | false =>
          rw [Bool.or_eq_false_iff] at hown
          exact .inr (.inl (.inl ⟨⟨⟨by simpa using hown.1, by simpa using hown.2⟩, hbody⟩, hrest⟩))
      · exact (ihbody.mp (.inr h)).imp (fun h => .inl (.inr h)) fun h => .inl (.inr h)
      · exact (ihrest.mp (.inr h)).imp .inr .inr
    · rintro (h | (⟨⟨-, hbody⟩, hrest⟩ | h) | h)
      · exact .inl h
      · exact .inr (.inl (.inl ⟨hbody, hrest⟩))
      · exact (ihbody.mpr (.inr h)).imp (fun h => .inl (.inr h)) fun h => .inl (.inr h)
      · exact (ihrest.mpr (.inr h)).imp .inr .inr

end Pattern

/-! ## The scan of a pattern -/

section Scan

variable {groups : List Bool} {src : List Char} {c : Char}

@[simp] theorem mark_mark : mark (mark groups) = mark groups := by cases groups <;> rfl

theorem scan_escape : scan groups ('\\' :: c :: src) = scan groups src := by simp [scan]

theorem scan_class : scan groups ('[' :: src) = scan groups (afterClass src) := by simp [scan]

theorem scan_open : scan groups ('(' :: src) = scan (false :: groups) src := by simp [scan]

theorem scan_close : scan groups (')' :: src) = (groups.headD false && src.head?.any isMark || scan groups.tail src) := by
  rw [scan]
  simp [isMark]

theorem scan_mark (h : isMark c = true) : scan groups (c :: src) = scan (mark groups) src := by
  have hne : c ≠ '\\' ∧ c ≠ '[' ∧ c ≠ '(' := by
    refine ⟨?_, ?_, ?_⟩ <;> rintro rfl <;> cases h
  rw [scan]
  simp [hne, h]

theorem scan_plain (h : isPlain c = true) : scan groups (c :: src) = scan (if c = '{' then mark groups else groups) src := by
  simp only [isPlain, Bool.and_eq_true, decide_eq_true_eq, ne_eq] at h
  split
  case isTrue hbrace =>
    subst hbrace
    exact scan_mark rfl
  case isFalse hbrace =>
    rw [scan]
    simp [h, isMark, hbrace]

/-- The scan leaves a class behind its end. -/
theorem afterClass_pieces {pieces : List ClassPiece} : afterClass (pieces.flatMap ClassPiece.text ++ ']' :: src) = src := by
  induction pieces with
  | nil => rfl
  | cons piece pieces ih =>
    cases piece with
    | escape c => exact ih
    | char c plain =>
      simp only [List.flatMap_cons, ClassPiece.text, List.cons_append]
      rw [afterClass]
      · exact ih
      · exact fun h => plain.1 h
      · exact fun _ _ h => absurd h plain.2

theorem scan_piece {piece : Piece} : scan groups (piece.text ++ src) = scan (if piece.text = ['{'] then mark groups else groups) src := by
  cases piece with
  | escape c => simpa [Piece.text] using scan_escape
  | char c plain => simpa [Piece.text] using scan_plain plain

theorem scan_pieces {pieces : List Piece} : scan (mark groups) (pieces.flatMap Piece.text ++ src) = scan (mark groups) src := by
  induction pieces with
  | nil => rfl
  | cons piece pieces ih =>
    rw [List.flatMap_cons, List.append_assoc, scan_piece, mark_mark, ite_self, ih]

/-- Digits and commas are plain. -/
theorem scan_bounds {text : List Char} (digits : ∀ c ∈ text, c.isDigit = true ∨ c = ',') :
    scan groups (text ++ '}' :: src) = scan groups src := by
  induction text with
  | nil => exact scan_plain rfl
  | cons c text ih =>
    have hplain : isPlain c = true ∧ c ≠ '{' := by
      rcases digits c List.mem_cons_self with hc | rfl
      · have hne : ∀ d : Char, d.isDigit = false → c ≠ d := fun d hd heq => by
          rw [← heq, hc] at hd
          cases hd
        simp [isPlain, hne]
      · exact ⟨rfl, by decide⟩
    rw [List.cons_append, scan_plain hplain.1, if_neg hplain.2, ih fun d hd => digits d (List.mem_cons_of_mem _ hd)]

theorem scan_quantifier {q : Quantifier} {lazy : Bool} :
    scan groups (q.text ++ (if lazy then ['?'] else []) ++ src) = scan (mark groups) src := by
  have hlazy : scan (mark groups) ((if lazy then ['?'] else []) ++ src) = scan (mark groups) src := by
    cases lazy with
    | false => rfl
    | true => exact (scan_mark rfl).trans (congrArg (scan · src) mark_mark)
  rw [List.append_assoc, ← hlazy]
  cases q with
  | star => exact scan_mark rfl
  | plus => exact scan_mark rfl
  | optional => exact scan_mark rfl
  | bounds text digits =>
    simp only [Quantifier.text, List.cons_append, List.append_assoc]
    rw [scan_mark rfl, scan_bounds digits, List.nil_append]

/-- Whether a mark is next. -/
theorem startsWithMark_iff {p : Pattern} (hsrc : src.head?.any isMark = false) : (p.source ++ src).head?.any isMark = p.startsWithMark := by
  cases p with
  | nil => exact hsrc
  | charClass => rfl
  | group => rfl
  | quantifier q => cases q <;> rfl
  | piece p rest =>
    cases p with
    | escape c => rfl
    | char c plain =>
      simp only [isPlain, Bool.and_eq_true, decide_eq_true_eq, ne_eq] at plain
      simp [Pattern.source, Piece.text, Pattern.startsWithMark, isMark, plain]

/-- The scan of a pattern finds what `refused` says, or goes on behind it. -/
theorem scan_source {p : Pattern} (hsrc : src.head?.any isMark = false) :
    scan groups (p.source ++ src) = (p.refused || scan (if p.marked then mark groups else groups) src) := by
  induction p generalizing groups src with
  | nil => rfl
  | piece p rest ih =>
    rw [Pattern.source, List.append_assoc, scan_piece, ih hsrc]
    by_cases hbrace : p.text = ['{'] <;> simp [Pattern.refused, Pattern.marked, hbrace]
  | charClass pieces rest ih =>
    rw [Pattern.source, List.cons_append, List.cons_append, scan_class, List.append_assoc, List.cons_append, afterClass_pieces, ih hsrc]
    rfl
  | quantifier q lazy rest ih =>
    rw [Pattern.source, List.append_assoc, scan_quantifier, ih hsrc]
    simp [Pattern.refused, Pattern.marked]
  | group head body rest ihbody ihrest =>
    have hclose : ((')' :: (rest.source ++ src)).head?.any isMark) = false := rfl
    have hinner : scan (false :: groups) (head.elim [] (fun pieces => '?' :: pieces.flatMap Piece.text) ++
          (body.source ++ ')' :: (rest.source ++ src))) =
        (body.refused || scan ((head.isSome || body.marked) :: groups) (')' :: (rest.source ++ src))) := by
      cases head with
      | none =>
        rw [Option.elim_none, List.nil_append, ihbody hclose]
        cases body.marked <;> rfl
      | some pieces =>
        rw [Option.elim_some, List.cons_append, scan_mark rfl, scan_pieces, ihbody hclose]
        cases body.marked <;> rfl
    rw [Pattern.source, List.cons_append, List.cons_append, List.cons_append, scan_open]
    simp only [List.append_assoc, List.cons_append]
    rw [hinner, scan_close, startsWithMark_iff hsrc, List.tail_cons, List.headD_cons, ihrest hsrc]
    simp only [Pattern.refused, Pattern.marked, Bool.or_assoc]
    cases body.refused with
    | false => rfl
    | true => simp

end Scan

variable {compiles : List Char → Bool} {p : Pattern}

theorem scan_pattern : scan [] p.source = p.refused := by
  have h : scan [] (p.source ++ []) = (p.refused || scan (if p.marked then mark [] else []) []) := scan_source rfl
  rw [List.append_nil] at h
  rw [h]
  cases p.marked <;> simp [mark, scan]

theorem source_ne_nil (h : p.nested = true) : p.source ≠ [] := by
  cases p with
  | nil => cases h
  | piece p rest => cases p <;> simp [Pattern.source, Piece.text]
  | charClass => simp [Pattern.source]
  | quantifier q => cases q <;> simp [Pattern.source, Quantifier.text]
  | group => simp [Pattern.source]

/-- The guard lets no nested quantifiers through exactly where it misses no group or refuses the pattern for something else: its length, its
shape, or another group. -/
theorem guard_covers_iff (hcompiles : compiles p.source = true) :
    (isDangerousRegex compiles p.source = false → p.nested = false) ↔
      (p.missed = true → units p.source > 200 ∨ slowShape p.source = true ∨ p.refused = true) := by
  have hguard : isDangerousRegex compiles p.source = false ↔
      p.source ≠ [] ∧ ¬units p.source > 200 ∧ slowShape p.source = false ∧ p.refused = false := by
    simp [isDangerousRegex, scan_pattern, hcompiles, and_assoc]
  rw [hguard]
  have hiff := p.nested_iff
  constructor
  · intro h hmissed
    by_contra hnot
    rw [not_or, not_or, Bool.not_eq_true, Bool.not_eq_true] at hnot
    have hnested : p.nested = true := (hiff.mpr (.inr hmissed)).resolve_left (by simp [hnot.2.2])
    exact absurd (h ⟨source_ne_nil hnested, hnot⟩) (by simp [hnested])
  · rintro h ⟨-, hlong, hslow, hrefused⟩
    by_contra hnested
    have hmissed := (hiff.mp (.inr (by simpa using hnested))).resolve_left (by simp [hrefused])
    rcases h hmissed with h | h | h
    · exact hlong h
    · simp [hslow] at h
    · simp [hrefused] at h

/-- `((a+))+` -/
private def someA : Pattern :=
  .group none (.group none (.piece (.char 'a' rfl) (.quantifier .plus false .nil)) .nil) (.quantifier .plus false .nil)

/-- It is refused for its shape. -/
theorem guard_covers_someA : someA.nested = true ∧ (isDangerousRegex (fun _ => true) someA.source = false → someA.nested = false) :=
  ⟨by decide, (guard_covers_iff rfl).mpr fun _ => .inr (.inl (by decide))⟩

/-- `((a?))?` -/
private def maybeA : Pattern :=
  .group none (.group none (.piece (.char 'a' rfl) (.quantifier .optional false .nil)) .nil) (.quantifier .optional false .nil)

/-- The guard lets a pattern through whose quantified group has its quantifier in an inner group. -/
theorem not_guard_covers : ∃ p : Pattern, p.source = "((a?))?".toList ∧ p.nested = true ∧
    ∀ compiles : List Char → Bool, compiles p.source = true → isDangerousRegex compiles p.source = false := by
  refine ⟨maybeA, by decide, by decide, fun compiles hcompiles => ?_⟩
  have hslow : slowShape maybeA.source = false := by decide
  have hunits : ¬units maybeA.source > 200 := by decide
  have hrefused : maybeA.refused = false := by decide
  have hne : maybeA.source ≠ [] := by decide
  simp only [isDangerousRegex, scan_pattern, hcompiles, hslow, hunits, hrefused, hne]
  rfl

end MailExpert.InboxRules.Backtracking
