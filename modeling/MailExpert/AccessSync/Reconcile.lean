import Mathlib

/-!
# The reconcile of an Access policy

The functions of `services/accessSync/reconcile.js`, and `normalizeEmail`. `toLowerCase` is a parameter.
A rule that names neither an email nor an email domain is one of the `other` rules.
-/

namespace MailExpert.AccessSync

/-- White space and line ends of JavaScript. -/
def isSpace (c : Char) : Bool :=
  let n := c.toNat
  n ∈ [0x9, 0xa, 0xb, 0xc, 0xd, 0x20, 0xa0, 0x1680, 0x2028, 0x2029, 0x202f, 0x205f, 0x3000, 0xfeff] ||
    0x2000 ≤ n && n ≤ 0x200a

def trim (s : String) : String :=
  String.ofList ((s.toList.dropWhile isSpace).reverse.dropWhile isSpace).reverse

/-- The length of a text in UTF-16. -/
def units (cs : List Char) : Nat := (cs.map fun c => if c.toNat < 0x10000 then 1 else 2).sum

structure Rule where
  email : Option String := none
  email_domain : Option String := none
  other : Option String := none
deriving DecidableEq, Repr

structure Policy where
  decision : String := "allow"
  includes : List Rule
  excludes : List Rule := []
deriving DecidableEq, Repr

section Reconcile

variable (toLowerCase : String → String)

def lower (value : String) : String := toLowerCase (trim value)

def ruleEmail (rule : Rule) : String := (rule.email.map (lower toLowerCase)).getD ""

def ruleDomain (rule : Rule) : String := (rule.email_domain.map (lower toLowerCase)).getD ""

def isEmailRule (rule : Rule) : Bool := ruleEmail toLowerCase rule ≠ ""

/-- `rules.map(ruleEmail).filter(Boolean)`. -/
def ruleEmails (rules : List Rule) : List String := (rules.map (ruleEmail toLowerCase)).filter (· ≠ "")

def ruleDomains (rules : List Rule) : List String := (rules.map (ruleDomain toLowerCase)).filter (· ≠ "")

/-- `email.slice(email.lastIndexOf('@') + 1)`. -/
def domainOf (email : String) : String :=
  String.ofList (email.toList.reverse.takeWhile (· ≠ '@')).reverse

def Policy.bars (policy : Policy) (email : String) : Bool :=
  email ∈ ruleEmails toLowerCase policy.excludes || domainOf email ∈ ruleDomains toLowerCase policy.excludes

def domainAdmits (policy : Policy) (email : String) : Bool :=
  domainOf email ∈ ruleDomains toLowerCase policy.includes && !policy.bars toLowerCase email

/-- `[...new Set(emails)].sort()`. -/
def sorted (emails : List String) : List String := emails.dedup.insertionSort (· ≤ ·)

def removedInCloudflare (policy : Policy) (baseline activeEmails pinned : List String) : List String :=
  let listed := ruleEmails toLowerCase policy.includes
  if listed = [] then []
  else sorted (baseline.filter fun email => email ∈ activeEmails && email ∉ pinned &&
    (policy.bars toLowerCase email || email ∉ listed && !domainAdmits toLowerCase policy email))

def importCandidates (policy : Policy) (baseline pinned : List String) : List String :=
  sorted ((ruleEmails toLowerCase policy.includes).filter fun email =>
    email ∉ baseline && email ∉ pinned && !policy.bars toLowerCase email)

def listedEmails (rules : List Rule) : List String := sorted (ruleEmails toLowerCase rules)

structure Built where
  includes : List Rule
  added : List String
  removed : List String
deriving DecidableEq, Repr

def Built.changed (built : Built) : Bool := built.added ≠ [] || built.removed ≠ []

def buildInclude (policy : Policy) (baseline desired : List String) : Built :=
  let wanted := sorted desired
  let listed := ruleEmails toLowerCase policy.includes
  let kept := policy.includes.filter fun rule => !isEmailRule toLowerCase rule ||
    ruleEmail toLowerCase rule ∉ baseline && ruleEmail toLowerCase rule ∉ wanted
  { includes := kept ++ wanted.map fun email => { email := some email }
    added := wanted.filter (· ∉ listed)
    removed := sorted (listed.filter fun email => email ∈ baseline && email ∉ wanted) }

/-- `EMAIL_PATTERN`. -/
def matchesEmail (s : String) : Bool :=
  match s.toList.splitOn '@' with
  | [name, domain] =>
    1 ≤ units name && units name ≤ 64 && 1 ≤ units domain && units domain ≤ 255 &&
      (name ++ domain).all fun c => !isSpace c
  | _ => false

def normalizeEmail (value : String) : Option String :=
  let email := lower toLowerCase value
  if units email.toList ≤ 254 && matchesEmail email then some email else none

end Reconcile

def exceedsImportLimit (count maxImports : Nat) : Bool := count > maxImports

def exceedsDisableLimit (count activeCount maxDisables : Nat) : Bool :=
  count > 0 && (count > maxDisables || count * 2 > activeCount)

end MailExpert.AccessSync
