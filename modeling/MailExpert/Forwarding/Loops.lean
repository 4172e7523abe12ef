import MailExpert.Forwarding.Headers

/-!
# Forwarding loops end

The loop tokens of `services/ruleForwarder.js`. A mailbox forwards nothing that carries its own token, and a forward carries those of the last
ten mailboxes that forwarded the letter (`received_eq`): among at most ten mailboxes none forwards a letter twice.
-/

namespace MailExpert.Forwarding

open Encodings (isSpace)
open Sanitizer (Text codes isWord)

def LOOP_HEADER : Text := codes "X-MailExpert-Loop"

/-- The most tokens a forward carries: its own and the newest nine it received. -/
def MAX_LOOP_TOKENS : Nat := 10

structure Account where
  email_address : Text

structure Rule where
  mailbox : Account
  recipient : Text

section

-- `hmac` is that of the key that `deriveKey` makes of ENCRYPTION_KEY, in hexadecimal, and none without a key.
variable (toLowerCase : Text → Text) (inherited : Text → Option Text) (hmac : Option (Text → Text))

/-- The address that the token is made of. -/
def Account.address (account : Account) : Text := toLowerCase (trim account.email_address)

def loopToken (account : Account) : Option Text := hmac.map fun digest => (digest (account.address toLowerCase)).take 16

def receivedLoopTokens (parsedHeaders : Headers) : List Text :=
  ((parsedHeaders.lookup (toLowerCase LOOP_HEADER)).map matchTokens).getD []

/-- It throws without a key. -/
def isForwardLoop (loopTokens : List Text) (account : Account) : Option Bool :=
  (loopToken toLowerCase hmac account).map loopTokens.contains

/-- `loopTokens.slice(-(MAX_LOOP_TOKENS - 1))` -/
def newest (loopTokens : List Text) : List Text := loopTokens.drop (loopTokens.length - (MAX_LOOP_TOKENS - 1))

/-- The header that `buildForwardMessage` writes. -/
def loopHeader (loopTokens : List Text) (account : Account) : Option Text :=
  (loopToken toLowerCase hmac account).map fun own => [44, 32].intercalate (newest loopTokens ++ [own])

def received (letter : HeadersInput) : List Text := receivedLoopTokens toLowerCase (parseHeadersInput toLowerCase inherited letter)

/-- The header of the forward of a letter by a mailbox, if it makes one. -/
def forward (letter : HeadersInput) (account : Account) : Option Text := do
  if ← isForwardLoop toLowerCase hmac (received toLowerCase inherited letter) account then none
  else loopHeader toLowerCase hmac (received toLowerCase inherited letter) account

/-- The forward with the header `value` arrives with its headers kept, among others, and folded on the way. -/
inductive Delivered (value : Text) : HeadersInput → Prop
  | raw {before after : List Field} {field : Field} : field.name = LOOP_HEADER → Folded (32 :: value) field.body →
      (∀ other ∈ before ++ after, trim (toLowerCase other.name) ≠ toLowerCase LOOP_HEADER) →
      Delivered value (.raw (block (before ++ field :: after)))
  | entries {before after : List (Text × List Text)} {body : Text} : Folded value body →
      (∀ other ∈ before ++ after, toLowerCase other.1 ≠ toLowerCase LOOP_HEADER) →
      Delivered value (.entries (before ++ (LOOP_HEADER, [body]) :: after))

/-- The letter of a sender after forwards by the rules of `chain`, each delivered to the mailbox of the next rule. -/
inductive Reaches (rules : List Rule) (letter : HeadersInput) : List Rule → HeadersInput → Prop
  | sent : Reaches rules letter [] letter
  | hop {chain : List Rule} {rule : Rule} {at_ next : HeadersInput} {value : Text} : Reaches rules letter chain at_ → rule ∈ rules →
      (∀ last ∈ chain.getLast?, toLowerCase (trim last.recipient) = rule.mailbox.address toLowerCase) →
      forward toLowerCase inherited hmac at_ rule.mailbox = some value → Delivered toLowerCase value next →
      Reaches rules letter (chain ++ [rule]) next

/-- A chain of forwards, wherever the last one goes. -/
def Chain (rules : List Rule) (letter : HeadersInput) (hops : List Rule) : Prop :=
  hops = [] ∨ ∃ chain rule at_ value, hops = chain ++ [rule] ∧ Reaches toLowerCase inherited hmac rules letter chain at_ ∧ rule ∈ rules ∧
    (∀ last ∈ chain.getLast?, toLowerCase (trim last.recipient) = rule.mailbox.address toLowerCase) ∧
    forward toLowerCase inherited hmac at_ rule.mailbox = some value

def addresses (rules : List Rule) : Finset Text := (rules.map (·.mailbox.address toLowerCase)).toFinset

end

/-- What the tokens rely on: lower case of an ASCII name, and no object has the header's name from elsewhere. -/
structure Platform (toLowerCase : Text → Text) (inherited : Text → Option Text) : Prop where
  lower : toLowerCase LOOP_HEADER = codes "x-mailexpert-loop"
  inherited : inherited (codes "x-mailexpert-loop") = none

/-- Digests are hexadecimal, and those of the addresses differ in the first 16 digits. -/
structure Distinct (digest : Text → Text) (addresses : Finset Text) : Prop where
  long (a : Text) : 16 ≤ (digest a).length
  hex (a : Text) : (digest a).all isHex = true
  apart : ∀ a ∈ addresses, ∀ b ∈ addresses, (digest a).take 16 = (digest b).take 16 → a = b

variable {toLowerCase : Text → Text} {inherited : Text → Option Text} {hmac : Option (Text → Text)} {digest : Text → Text}
  {rules chain : List Rule} {rule : Rule} {letter letter' : HeadersInput} {value : Text} {account : Account} {tokens : List Text}

/-! ## The header is read as it was written -/

theorem lookup_add {result : Headers} {name val key : Text} (h : name ≠ key) :
    (add inherited result name val).lookup key = result.lookup key := by
  rw [add]
  split
  · rfl
  · rw [Table.lookup_insert', if_neg h.symm]

theorem lookup_add_self {result : Headers} {val key : Text} (hkey : key ≠ codes "__proto__") (hnone : result.lookup key = none)
    (hinherited : inherited key = none) : (add inherited result key val).lookup key = some val := by
  rw [add, if_neg hkey, hnone, hinherited, Table.lookup_insert', if_pos rfl]
  rfl

theorem lookup_foldl {entries : List (Text × Text)} {key : Text} {result : Headers} (h : ∀ e ∈ entries, e.1 ≠ key) :
    (entries.foldl (fun result e => add inherited result e.1 e.2) result).lookup key = result.lookup key := by
  induction entries generalizing result with
  | nil => rfl
  | cons e entries ih =>
    rw [List.foldl_cons, ih fun e' he' => h e' (List.mem_cons_of_mem _ he'), lookup_add (h e List.mem_cons_self)]

theorem lookup_one {before after : List (Text × Text)} {key val : Text} (hkey : key ≠ codes "__proto__") (hinherited : inherited key = none)
    (h : ∀ e ∈ before ++ after, e.1 ≠ key) :
    ((before ++ (key, val) :: after).foldl (fun result e => add inherited result e.1 e.2) ∅).lookup key = some val := by
  rw [List.foldl_append, List.foldl_cons, lookup_foldl fun e he => h e (List.mem_append_right _ he), lookup_add_self hkey _ hinherited]
  rw [lookup_foldl fun e he => h e (List.mem_append_left _ he)]
  rfl

theorem fieldOf_line {f : Field} : fieldOf toLowerCase f.line =
    if trim (toLowerCase f.name) = [] then none else some (trim (toLowerCase f.name), trim (unfolded f.body)) := by
  have hidx : f.line.idxOf 58 = f.name.length := by
    rw [Field.line, List.idxOf_append_of_notMem f.name_colon, List.idxOf_cons_self, Nat.add_zero]
  have hpos := List.length_pos_iff.mpr f.name_ne
  have hlen : f.name.length < f.line.length := by simp [Field.line]
  rw [fieldOf, hidx, if_neg (by omega)]
  simp [Field.line]

theorem parseRawHeaders_block {fields : List Field} : parseRawHeaders toLowerCase inherited (block fields) =
    ((fields.map fun f => (trim (toLowerCase f.name), trim (unfolded f.body))).filter (·.1 ≠ [])).foldl
      (fun result e => add inherited result e.1 e.2) ∅ := by
  have hfold (result : Headers) : (fields.map Field.line).foldl (addLine toLowerCase inherited) result =
      ((fields.map fun f => (trim (toLowerCase f.name), trim (unfolded f.body))).filter (·.1 ≠ [])).foldl
        (fun result e => add inherited result e.1 e.2) result := by
    induction fields generalizing result with
    | nil => rfl
    | cons f fields ih =>
      rw [List.map_cons, List.foldl_cons, ih, List.map_cons, List.filter_cons, addLine, fieldOf_line]
      by_cases hname : trim (toLowerCase f.name) = []
      · simp [hname]
      · simp [hname]
  rw [parseRawHeaders, lines_block, List.foldl_append, hfold]
  rfl

theorem received_delivered (hp : Platform toLowerCase inherited) (h : Delivered toLowerCase value letter) :
    received toLowerCase inherited letter = matchTokens value := by
  have hkey : toLowerCase LOOP_HEADER ≠ codes "__proto__" := by
    rw [hp.lower]
    decide
  have hinherited : inherited (toLowerCase LOOP_HEADER) = none := by rw [hp.lower, hp.inherited]
  have htrim : trim (toLowerCase LOOP_HEADER) = toLowerCase LOOP_HEADER := by
    rw [hp.lower]
    decide
  have hne : toLowerCase LOOP_HEADER ≠ [] := by
    rw [hp.lower]
    decide
  cases h with
  | @raw before after field hname hfold hother =>
    have hlookup : (parseRawHeaders toLowerCase inherited (block (before ++ field :: after))).lookup (toLowerCase LOOP_HEADER) =
        some (trim (unfolded field.body)) := by
      rw [parseRawHeaders_block, List.map_append, List.map_cons, List.filter_append, hname, htrim, List.filter_cons_of_pos (by simpa using hne)]
      refine lookup_one hkey hinherited fun e he => ?_
      rw [← List.filter_append, ← List.map_append] at he
      obtain ⟨f, hf, rfl⟩ := List.mem_map.mp (List.mem_filter.mp he).1
      exact hother f hf
    rw [received, receivedLoopTokens, parseHeadersInput, hlookup, Option.map_some, Option.getD_some, matchTokens_folded hfold,
      matchTokens_cons (by rfl)]
  | @entries before after body hfold hother =>
    have hlookup : (parseHeadersInput toLowerCase inherited (.entries (before ++ (LOOP_HEADER, [body]) :: after))).lookup
        (toLowerCase LOOP_HEADER) = some body := by
      have hmap : parseHeadersInput toLowerCase inherited (.entries (before ++ (LOOP_HEADER, [body]) :: after)) =
          ((before ++ (LOOP_HEADER, [body]) :: after).map fun e => (toLowerCase e.1, [10].intercalate e.2)).foldl
            (fun result e => add inherited result e.1 e.2) ∅ := by
        rw [List.foldl_map]
        rfl
      rw [hmap, List.map_append, List.map_cons]
      refine (lookup_one hkey hinherited fun e he => ?_).trans (by simp [List.intercalate])
      rw [← List.map_append] at he
      obtain ⟨entry, hentry, rfl⟩ := List.mem_map.mp he
      exact hother entry hentry
    rw [received, receivedLoopTokens, hlookup, Option.map_some, Option.getD_some, (sameTokens_folded hfold).matchTokens]

theorem isToken_of_received {w : Text} (h : w ∈ received toLowerCase inherited letter) : isToken w = true := by
  rw [received, receivedLoopTokens] at h
  cases hlookup : (parseHeadersInput toLowerCase inherited letter).lookup (toLowerCase LOOP_HEADER) with
  | none =>
    rw [hlookup] at h
    cases h
  | some value =>
    rw [hlookup] at h
    exact isToken_of_mem h

/-! ## What a chain carries -/

/-- The last `n` of a list. -/
def lastOf (n : Nat) (l : List Text) : List Text := l.drop (l.length - n)

theorem lastOf_snoc {l : List Text} {w : Text} {n : Nat} : lastOf n l ++ [w] = lastOf (n + 1) (l ++ [w]) := by
  rw [lastOf, lastOf, List.length_append, List.length_singleton, Nat.add_sub_add_right, List.drop_append_of_le_length (by omega)]

theorem lastOf_lastOf {l : List Text} {m n : Nat} (h : m ≤ n) : lastOf m (lastOf n l) = lastOf m l := by
  rw [lastOf, lastOf, lastOf, List.drop_drop, List.length_drop]
  congr 1
  omega

theorem mem_of_mem_lastOf {l : List Text} {w : Text} {n : Nat} (h : w ∈ lastOf n l) : w ∈ l := List.mem_of_mem_drop h

theorem mem_lastOf {l l' : List Text} {w : Text} {n : Nat} (h : w ∈ l') (hn : l'.length ≤ n) : w ∈ lastOf n (l ++ l') := by
  rw [lastOf, List.length_append, List.drop_append_of_le_length (by omega)]
  exact List.mem_append_right _ h

def Rule.token (toLowerCase : Text → Text) (digest : Text → Text) (rule : Rule) : Text :=
  (digest (rule.mailbox.address toLowerCase)).take 16

theorem isToken_token {addresses : Finset Text} (hd : Distinct digest addresses) : isToken (rule.token toLowerCase digest) = true := by
  rw [isToken, Rule.token, List.length_take, Nat.min_eq_left (hd.long _), Bool.and_eq_true]
  refine ⟨by simp, List.all_eq_true.mpr fun c hc => ?_⟩
  exact List.all_eq_true.mp (hd.hex _) c (List.mem_of_mem_take hc)

theorem forward_eq_some (h : forward toLowerCase inherited hmac letter account = some value) :
    isForwardLoop toLowerCase hmac (received toLowerCase inherited letter) account = some false ∧
      loopHeader toLowerCase hmac (received toLowerCase inherited letter) account = some value := by
  rw [forward] at h
  cases hloop : isForwardLoop toLowerCase hmac (received toLowerCase inherited letter) account with
  | none =>
    rw [hloop] at h
    cases h
  | some loop =>
    rw [hloop] at h
    cases loop with
    | true => cases h
    | false => exact ⟨rfl, h⟩

/-- The tokens of a letter after some forwards: the newest ten of those of the sender and the mailboxes. -/
theorem received_eq (hp : Platform toLowerCase inherited) (hd : Distinct digest (addresses toLowerCase rules))
    (h : Reaches toLowerCase inherited (some digest) rules letter chain letter') :
    received toLowerCase inherited letter' =
      if chain = [] then received toLowerCase inherited letter
      else lastOf 10 (received toLowerCase inherited letter ++ chain.map (Rule.token toLowerCase digest)) := by
  induction h with
  | sent => rfl
  | @hop chain rule at_ next value hreach hrule hnext hforward hdelivered ih =>
    rw [if_neg (by simp), received_delivered hp hdelivered]
    obtain rfl : value = [44, 32].intercalate (newest (received toLowerCase inherited at_) ++ [rule.token toLowerCase digest]) :=
      (Option.some.inj (forward_eq_some hforward).2).symm
    have htokens : ∀ w ∈ newest (received toLowerCase inherited at_) ++ [rule.token toLowerCase digest], isToken w = true := by
      intro w hw
      rcases List.mem_append.mp hw with hw | hw
      · exact isToken_of_received (List.mem_of_mem_drop hw)
      · rw [List.mem_singleton.mp hw]
        exact isToken_token hd
    rw [matchTokens_join htokens, List.map_append, List.map_singleton, ← List.append_assoc, ← lastOf_snoc, ih]
    congr 1
    split
    next hnil => rw [hnil, List.map_nil, List.append_nil]; rfl
    next => exact lastOf_lastOf (by decide)

/-- What a mailbox does with a letter after some forwards. -/
theorem isForwardLoop_iff (hp : Platform toLowerCase inherited) (hd : Distinct digest (addresses toLowerCase rules))
    (hsender : ∀ rule ∈ rules, rule.token toLowerCase digest ∉ received toLowerCase inherited letter)
    (h : Reaches toLowerCase inherited (some digest) rules letter chain letter') (hshort : chain.length ≤ 10) (hrule : rule ∈ rules) :
    isForwardLoop toLowerCase (some digest) (received toLowerCase inherited letter') rule.mailbox =
      some (decide (rule.token toLowerCase digest ∈ chain.map (Rule.token toLowerCase digest))) := by
  have hmem : rule.token toLowerCase digest ∈ received toLowerCase inherited letter' ↔
      rule.token toLowerCase digest ∈ chain.map (Rule.token toLowerCase digest) := by
    rw [received_eq hp hd h]
    split
    next hnil => simp [hnil, hsender rule hrule]
    next =>
      refine ⟨fun hin => ?_, fun hin => mem_lastOf hin (by simpa using hshort)⟩
      exact (List.mem_append.mp (mem_of_mem_lastOf hin)).resolve_left (hsender rule hrule)
  show some ((received toLowerCase inherited letter').contains (rule.token toLowerCase digest)) = _
  rw [← List.elem_eq_contains, List.elem_eq_mem, decide_eq_decide.mpr hmem]

theorem mem_addresses (hrule : rule ∈ rules) : rule.mailbox.address toLowerCase ∈ addresses toLowerCase rules :=
  List.mem_toFinset.mpr (List.mem_map_of_mem hrule)

theorem token_inj (hd : Distinct digest (addresses toLowerCase rules)) {rule' : Rule} (hrule : rule ∈ rules) (hrule' : rule' ∈ rules)
    (h : rule.token toLowerCase digest = rule'.token toLowerCase digest) : rule.mailbox.address toLowerCase = rule'.mailbox.address toLowerCase :=
  hd.apart _ (mem_addresses hrule) _ (mem_addresses hrule') h

theorem Reaches.mem (h : Reaches toLowerCase inherited hmac rules letter chain letter') : ∀ rule ∈ chain, rule ∈ rules := by
  induction h with
  | sent => exact fun rule hrule => absurd hrule List.not_mem_nil
  | hop _ hrule _ _ _ ih =>
    intro rule' hrule'
    rcases List.mem_append.mp hrule' with hin | hin
    · exact ih rule' hin
    · rwa [List.mem_singleton.mp hin]

/-- No mailbox forwards a letter that it forwarded before. -/
theorem not_mem_of_forward (hp : Platform toLowerCase inherited) (hd : Distinct digest (addresses toLowerCase rules))
    (hsender : ∀ rule ∈ rules, rule.token toLowerCase digest ∉ received toLowerCase inherited letter)
    (h : Reaches toLowerCase inherited (some digest) rules letter chain letter') (hshort : chain.length ≤ 10) (hrule : rule ∈ rules)
    (hforward : forward toLowerCase inherited (some digest) letter' rule.mailbox = some value) :
    rule.mailbox.address toLowerCase ∉ chain.map (·.mailbox.address toLowerCase) := by
  intro hin
  obtain ⟨earlier, hearlier, heq⟩ := List.mem_map.mp hin
  have hloop := (forward_eq_some hforward).1
  rw [isForwardLoop_iff hp hd hsender h hshort hrule, Option.some.injEq, decide_eq_false_iff_not] at hloop
  exact hloop (List.mem_map.mpr ⟨earlier, hearlier, by rw [Rule.token, Rule.token, heq]⟩)

theorem length_le_of_nodup {l : List Rule} (hnodup : (l.map (·.mailbox.address toLowerCase)).Nodup) (hmem : ∀ rule ∈ l, rule ∈ rules) :
    l.length ≤ (addresses toLowerCase rules).card := by
  rw [← List.length_map (f := (·.mailbox.address toLowerCase)), ← List.toFinset_card_of_nodup hnodup]
  refine Finset.card_le_card fun a ha => ?_
  obtain ⟨rule, hrule, rfl⟩ := List.mem_map.mp (List.mem_toFinset.mp ha)
  exact mem_addresses (hmem rule hrule)

/-- The mailboxes of a chain differ. -/
theorem Reaches.nodup (hp : Platform toLowerCase inherited) (hd : Distinct digest (addresses toLowerCase rules))
    (hten : (addresses toLowerCase rules).card ≤ 10)
    (hsender : ∀ rule ∈ rules, rule.token toLowerCase digest ∉ received toLowerCase inherited letter)
    (h : Reaches toLowerCase inherited (some digest) rules letter chain letter') : (chain.map (·.mailbox.address toLowerCase)).Nodup := by
  induction h with
  | sent => exact List.nodup_nil
  | hop hreach hrule _ hforward _ ih =>
    have hshort := (length_le_of_nodup ih hreach.mem).trans hten
    have hnot := not_mem_of_forward hp hd hsender hreach hshort hrule hforward
    rw [List.map_append, List.map_singleton]
    exact List.nodup_append.mpr ⟨ih, List.nodup_singleton _, fun a ha b hb => by
      rw [List.mem_singleton.mp hb]
      rintro rfl
      exact hnot ha⟩

theorem Chain.spec (hp : Platform toLowerCase inherited) (hd : Distinct digest (addresses toLowerCase rules))
    (hten : (addresses toLowerCase rules).card ≤ 10)
    (hsender : ∀ rule ∈ rules, rule.token toLowerCase digest ∉ received toLowerCase inherited letter)
    (h : Chain toLowerCase inherited (some digest) rules letter chain) :
    chain.length ≤ (addresses toLowerCase rules).card ∧ ∀ rule ∈ chain, rule ∈ rules := by
  rcases h with rfl | ⟨chain, rule, at_, value, rfl, hreach, hrule, -, hforward⟩
  · exact ⟨Nat.zero_le _, fun rule hrule => absurd hrule List.not_mem_nil⟩
  have hnodup := hreach.nodup hp hd hten hsender
  have hshort := (length_le_of_nodup hnodup hreach.mem).trans hten
  have hnot := not_mem_of_forward hp hd hsender hreach hshort hrule hforward
  have hmem : ∀ rule' ∈ chain ++ [rule], rule' ∈ rules := by
    intro rule' hrule'
    rcases List.mem_append.mp hrule' with hin | hin
    · exact hreach.mem rule' hin
    · rwa [List.mem_singleton.mp hin]
  refine ⟨length_le_of_nodup ?_ hmem, hmem⟩
  rw [List.map_append, List.map_singleton]
  exact List.nodup_append.mpr ⟨hnodup, List.nodup_singleton _, fun a ha b hb => by
    rw [List.mem_singleton.mp hb]
    rintro rfl
    exact hnot ha⟩

/-- Of a letter that carries no token of the mailboxes, at most ten: each chain of forwards is at most as long as there are mailboxes, the
tree of all of them is finite, and a mailbox that has not forwarded the letter yet is not stopped by what the letter carries. Without a key there
is no forward. -/
theorem forwarding_ends (hp : Platform toLowerCase inherited) (hd : ∀ digest ∈ hmac, Distinct digest (addresses toLowerCase rules))
    (hten : (addresses toLowerCase rules).card ≤ 10)
    (hsender : ∀ rule ∈ rules, ∀ token ∈ loopToken toLowerCase hmac rule.mailbox, token ∉ received toLowerCase inherited letter) :
    (∀ hops, Chain toLowerCase inherited hmac rules letter hops → hops.length ≤ (addresses toLowerCase rules).card) ∧
    {hops | Chain toLowerCase inherited hmac rules letter hops}.Finite ∧
    ∀ chain letter', Reaches toLowerCase inherited hmac rules letter chain letter' → ∀ rule ∈ rules,
      rule.mailbox.address toLowerCase ∉ chain.map (·.mailbox.address toLowerCase) →
      isForwardLoop toLowerCase hmac (received toLowerCase inherited letter') rule.mailbox = hmac.map fun _ => false := by
  cases hmac with
  | none =>
    have hnone {letter : HeadersInput} {account : Account} {value : Text} : forward toLowerCase inherited none letter account ≠ some value :=
      fun h => by cases (forward_eq_some h).1
    have hnil {hops : List Rule} (h : Chain toLowerCase inherited none rules letter hops) : hops = [] := by
      rcases h with rfl | ⟨_, _, _, _, _, _, _, _, hforward⟩
      · rfl
      · exact absurd hforward hnone
    refine ⟨fun hops h => ?_, (Set.finite_singleton []).subset fun hops h => hnil h, fun _ _ _ _ _ _ => rfl⟩
    rw [hnil h]
    exact Nat.zero_le _
  | some digest =>
    have hd := hd digest rfl
    have hsender : ∀ rule ∈ rules, rule.token toLowerCase digest ∉ received toLowerCase inherited letter :=
      fun rule hrule => hsender rule hrule _ rfl
    refine ⟨fun hops h => (h.spec hp hd hten hsender).1, ?_, fun chain letter' h rule hrule hnot => ?_⟩
    · have hfinite : Finite {rule // rule ∈ rules} := (List.finite_toSet rules).to_subtype
      refine ((List.finite_length_le {rule // rule ∈ rules} (addresses toLowerCase rules).card).image (List.map Subtype.val)).subset ?_
      intro hops h
      obtain ⟨hlength, hmem⟩ := Chain.spec hp hd hten hsender h
      exact ⟨hops.attachWith _ hmem, by simpa using hlength, List.attachWith_map_subtype_val hmem⟩
    · have hshort := (length_le_of_nodup (h.nodup hp hd hten hsender) h.mem).trans hten
      rw [isForwardLoop_iff hp hd hsender h hshort hrule]
      refine congrArg some (decide_eq_false fun hin => ?_)
      obtain ⟨earlier, hearlier, heq⟩ := List.mem_map.mp hin
      exact hnot (List.mem_map.mpr ⟨earlier, hearlier, token_inj hd (h.mem earlier hearlier) hrule heq⟩)

/-- Lower case of ASCII letters, and digests of two mailboxes. -/
def exampleLowerCase (t : Text) : Text := t.map Sanitizer.fold

def exampleDigest (a : Text) : Text := List.replicate 64 (if a = codes "anna@example.com" then 48 else 49)

/-- Two mailboxes that forward to each other. -/
def pairRules : List Rule :=
  [⟨⟨codes "anna@example.com"⟩, codes "boris@example.com"⟩, ⟨⟨codes "boris@example.com"⟩, codes "anna@example.com"⟩]

/-- A sender's letter with a token that is no mailbox's. -/
def pairLetter : HeadersInput := .entries [(LOOP_HEADER, [codes "0123456789abcdef"])]

theorem forwarding_ends_pair :
    {hops | Chain exampleLowerCase (fun _ => none) (some exampleDigest) pairRules pairLetter hops}.Finite ∧
    ∃ rule ∈ pairRules, isForwardLoop exampleLowerCase (some exampleDigest)
      (received exampleLowerCase (fun _ => none) pairLetter) rule.mailbox = some false := by
  have hp : Platform exampleLowerCase fun _ => none := ⟨by decide +kernel, rfl⟩
  have hd : Distinct exampleDigest (addresses exampleLowerCase pairRules) := by
    refine ⟨fun a => by simp [exampleDigest], fun a => ?_, by decide +kernel⟩
    rw [exampleDigest]
    split
    · decide
    · decide
  have hlookup : (parseHeadersInput exampleLowerCase (fun _ => none) pairLetter).lookup (exampleLowerCase LOOP_HEADER) =
      some (codes "0123456789abcdef") := by decide +kernel
  have hreceived : received exampleLowerCase (fun _ => none) pairLetter = [codes "0123456789abcdef"] := by
    rw [received, receivedLoopTokens, hlookup, Option.map_some, Option.getD_some]
    exact matchTokens_token (by decide +kernel)
  have hsender : ∀ rule ∈ pairRules, ∀ token ∈ loopToken exampleLowerCase (some exampleDigest) rule.mailbox,
      token ∉ received exampleLowerCase (fun _ => none) pairLetter := by
    rw [hreceived]
    decide +kernel
  obtain ⟨-, hfinite, hfirst⟩ := forwarding_ends hp (fun digest hdigest => Option.some.inj hdigest ▸ hd) (by decide +kernel) hsender
  exact ⟨hfinite, _, List.mem_cons_self, hfirst [] pairLetter .sent _ List.mem_cons_self List.not_mem_nil⟩

end MailExpert.Forwarding
