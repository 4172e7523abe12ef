import MailExpert.Threading.Recompute

/-!
# The keys a row derives

A row threads under one of its candidates, and takes the key of a row that has that Message-ID. When
several rows before it have it, the database may answer any of them: `Leads` follows every such choice
up to a row that is under no other, whose own key it then is. Whatever the batches and the stops of a
pass, each row it went over has a key that it derives so.
-/

namespace MailExpert.Threading

def present (rows : List Row) (id : String) : Bool := rows.any (·.messageId = some id)

/-- From a row with a date, after the rows `before` of the walk, to the root of its thread. -/
inductive Leads (mode : Mode) : (before : List Row) → Row → Row → Prop
  | own : row.under mode (present before) = none → Leads mode before row row
  | copy : row.under mode (present (pre ++ parent :: post)) = some (c, reason) →
    parent.messageId = some c → Leads mode pre parent root → Leads mode (pre ++ parent :: post) row root

/-- From a row without a date, after the rows `before` of the tail: the last of these that has the
Message-ID counts, if there is one. -/
inductive LeadsUndated (mode : Mode) (walk : List Row) : (before : List Row) → Row → Row → Prop
  | own : row.under mode (present (walk ++ before)) = none → LeadsUndated mode walk before row row
  | dated : row.under mode (present (walk ++ before)) = some (c, reason) →
    present before c = false → walk = pre ++ parent :: post → parent.messageId = some c →
    Leads mode pre parent root → LeadsUndated mode walk before row root
  | undated : row.under mode (present (walk ++ (pre ++ parent :: post))) = some (c, reason) →
    present post c = false → parent.messageId = some c → LeadsUndated mode walk pre parent root →
    LeadsUndated mode walk (pre ++ parent :: post) row root

def Row.keyIn (mode : Mode) (has : String → Bool) (row root : Row) : ThreadKey :=
  match row.under mode has with
  | some (_, reason) => { threadId := (root.own mode).threadId, reason := some reason }
  | none => row.own mode

def Derives (mode : Mode) (before : List Row) (row : Row) (key : ThreadKey) : Prop :=
  ∃ root, Leads mode before row root ∧ key = row.keyIn mode (present before) root

def DerivesUndated (mode : Mode) (walk before : List Row) (row : Row) (key : ThreadKey) : Prop :=
  ∃ root, LeadsUndated mode walk before row root ∧ key = row.keyIn mode (present (walk ++ before)) root

section Roots

variable {mode : Mode} {walk before pre post : List Row} {row parent root : Row} {c : String}
  {reason : Reason} {key : ThreadKey} {has : String → Bool}

theorem Row.keyIn_own (h : row.under mode has = none) : row.keyIn mode has root = row.own mode := by
  rw [Row.keyIn, h]

theorem Row.keyIn_under (h : row.under mode has = some (c, reason)) : row.keyIn mode has root =
    { threadId := (root.own mode).threadId, reason := some reason } := by
  rw [Row.keyIn, h]

/-- The key of a row is the key of its root. -/
theorem Leads.threadId (h : Leads mode before row root) :
    (row.keyIn mode (present before) root).threadId = (root.own mode).threadId := by
  cases h with
  | own hunder => rw [Row.keyIn_own hunder]
  | copy hunder => rw [Row.keyIn_under hunder]

theorem LeadsUndated.threadId (h : LeadsUndated mode walk before row root) :
    (row.keyIn mode (present (walk ++ before)) root).threadId = (root.own mode).threadId := by
  cases h with
  | own hunder => rw [Row.keyIn_own hunder]
  | dated hunder => rw [Row.keyIn_under hunder]
  | undated hunder => rw [Row.keyIn_under hunder]

theorem Derives.own (h : row.under mode (present before) = none) :
    Derives mode before row (row.own mode) :=
  ⟨row, .own h, (Row.keyIn_own h).symm⟩

theorem Derives.copy (h : row.under mode (present (pre ++ parent :: post)) = some (c, reason))
    (hparent : parent.messageId = some c) (hkey : Derives mode pre parent key) :
    Derives mode (pre ++ parent :: post) row { threadId := key.threadId, reason := some reason } := by
  obtain ⟨root, hroot, rfl⟩ := hkey
  refine ⟨root, .copy h hparent hroot, ?_⟩
  rw [hroot.threadId, Row.keyIn_under h]

theorem DerivesUndated.own (h : row.under mode (present (walk ++ before)) = none) :
    DerivesUndated mode walk before row (row.own mode) :=
  ⟨row, .own h, (Row.keyIn_own h).symm⟩

theorem DerivesUndated.dated (h : row.under mode (present (walk ++ before)) = some (c, reason))
    (hbefore : present before c = false) (hwalk : walk = pre ++ parent :: post)
    (hparent : parent.messageId = some c) (hkey : Derives mode pre parent key) :
    DerivesUndated mode walk before row { threadId := key.threadId, reason := some reason } := by
  obtain ⟨root, hroot, rfl⟩ := hkey
  refine ⟨root, .dated h hbefore hwalk hparent hroot, ?_⟩
  rw [hroot.threadId, Row.keyIn_under h]

theorem DerivesUndated.undated
    (h : row.under mode (present (walk ++ (pre ++ parent :: post))) = some (c, reason))
    (hpost : present post c = false) (hparent : parent.messageId = some c)
    (hkey : DerivesUndated mode walk pre parent key) :
    DerivesUndated mode walk (pre ++ parent :: post) row
      { threadId := key.threadId, reason := some reason } := by
  obtain ⟨root, hroot, rfl⟩ := hkey
  refine ⟨root, .undated h hpost hparent hroot, ?_⟩
  rw [hroot.threadId, Row.keyIn_under h]

/-- The root of a row with a Message-ID has a key. -/
theorem Leads.isSome (h : Leads mode before row root) (hid : row.messageId.isSome = true) :
    (root.own mode).threadId.isSome = true := by
  induction h with
  | own => exact Row.own_isSome hid
  | copy _ hparent _ ih =>
    apply ih
    rw [hparent]
    rfl

theorem Derives.isSome (h : Derives mode before row key) (hid : row.messageId.isSome = true) :
    key.threadId.isSome = true := by
  obtain ⟨root, hroot, rfl⟩ := h
  rw [hroot.threadId]
  exact hroot.isSome hid

end Roots

/-! ## The order of the walk -/

variable {mailbox : Mailbox} {row : Row} {done rest : List Row} {mode : Mode} {key : ThreadKey}

/-- The cursor of a pass that went over `done`. -/
def cursorOf (done : List Row) : Option Cursor := done.getLast?.bind (·.cursor)

theorem mem_walk : row ∈ mailbox.walk ↔
    row ∈ mailbox.rows ∧ row.is_deleted = false ∧ row.date.isSome = true := by
  simp [Mailbox.walk, List.mem_insertionSort]

theorem mem_selectUndated : row ∈ mailbox.selectUndated ↔
    row ∈ mailbox.rows ∧ row.is_deleted = false ∧ row.date = none := by
  simp [Mailbox.selectUndated, List.mem_insertionSort]

theorem eq_of_id_eq {a b : Row} (ha : a ∈ mailbox.rows) (hb : b ∈ mailbox.rows) (h : a.id = b.id) :
    a = b :=
  List.inj_on_of_nodup_map mailbox.distinct ha hb h

theorem filter_nodup (P : Row → Bool) : ((mailbox.rows.filter P).map (·.id)).Nodup :=
  (List.filter_sublist.map _).nodup mailbox.distinct

theorem id_not_mem_selectUndated (h : row ∈ mailbox.walk) :
    row.id ∉ mailbox.selectUndated.map (·.id) := by
  intro hmem
  obtain ⟨undated, hundated, hid⟩ := List.mem_map.mp hmem
  obtain ⟨hrow, -, hdate⟩ := mem_walk.mp h
  obtain ⟨hrow', -, hnone⟩ := mem_selectUndated.mp hundated
  cases eq_of_id_eq hrow' hrow hid
  rw [hnone] at hdate
  cases hdate

theorem walk_nodup (mailbox : Mailbox) : (mailbox.walk.map (·.id)).Nodup :=
  ((List.perm_insertionSort _ _).map _).nodup_iff.mpr (filter_nodup _)

theorem selectUndated_nodup : (mailbox.selectUndated.map (·.id)).Nodup :=
  ((List.perm_insertionSort _ _).map _).nodup_iff.mpr (filter_nodup _)

instance : Std.Total fun a b : Row => a.position ≤ b.position := ⟨fun _ _ => le_total _ _⟩

instance : IsTrans Row fun a b => a.position ≤ b.position := ⟨fun _ _ _ => le_trans⟩

/-- Rows with the same date differ in their id. -/
theorem walk_sorted (mailbox : Mailbox) :
    mailbox.walk.Pairwise fun a b => a.position < b.position := by
  have hsorted : mailbox.walk.Pairwise fun a b => a.position ≤ b.position :=
    List.pairwise_insertionSort _ _
  have hdistinct : mailbox.walk.Pairwise fun a b => a.id ≠ b.id := List.pairwise_map.mp (walk_nodup mailbox)
  refine (hsorted.and hdistinct).imp fun {a b} h => lt_of_le_of_ne h.1 fun hsame => h.2 ?_
  exact congrArg (fun c : Cursor => (ofLex c).2) hsame

theorem cursor_of_mem_walk (h : row ∈ mailbox.walk) : row.cursor = some row.position := by
  obtain ⟨-, -, hdate⟩ := mem_walk.mp h
  obtain ⟨date, hdate⟩ := Option.isSome_iff_exists.mp hdate
  simp [Row.cursor, Row.position, hdate]

/-- The cursor of a pass parts the rows it went over from the others. -/
theorem isAfter_cursorOf (h : mailbox.walk = done ++ rest) :
    (∀ row ∈ done, row.isAfter (cursorOf done) = false ∧ row.isUpTo (cursorOf done) = true) ∧
      ∀ row ∈ rest, row.isAfter (cursorOf done) = true ∧ row.isUpTo (cursorOf done) = false := by
  have hcursor {row : Row} (hrow : row ∈ done ++ rest) : row.cursor = some row.position :=
    cursor_of_mem_walk (h ▸ hrow)
  have hsorted := h ▸ walk_sorted mailbox
  rcases List.eq_nil_or_concat done with rfl | ⟨done, last, rfl⟩
  · refine ⟨nofun, fun row hrow => ?_⟩
    rw [cursorOf, List.getLast?_nil, Option.bind_none]
    simp [Row.isAfter, Row.isUpTo, hcursor hrow]
  · have hlast : cursorOf (done.concat last) = some last.position := by
      rw [cursorOf, List.concat_eq_append, List.getLast?_concat, Option.bind_some]
      exact hcursor (by simp)
    rw [hlast]
    obtain ⟨hdone, -, hrest⟩ := List.pairwise_append.mp hsorted
    refine ⟨fun row hrow => ?_, fun row hrow => ?_⟩
    · have hle : row.position ≤ last.position := by
        rw [List.concat_eq_append] at hrow hdone
        rcases List.mem_append.mp hrow with hrow | hrow
        · exact le_of_lt ((List.pairwise_append.mp hdone).2.2 row hrow last (by simp))
        · rw [List.mem_singleton.mp hrow]
      simp [Row.isAfter, Row.isUpTo, hcursor (List.mem_append_left _ hrow), hle]
    · have hlt : last.position < row.position := hrest last (by simp) row hrow
      simp [Row.isAfter, Row.isUpTo, hcursor (List.mem_append_right _ hrow), hlt]

/-- The rows after the cursor are those the pass did not go over. -/
theorem filter_isAfter (h : mailbox.walk = done ++ rest) :
    mailbox.walk.filter (·.isAfter (cursorOf done)) = rest := by
  obtain ⟨hdone, hrest⟩ := isAfter_cursorOf h
  rw [h, List.filter_append, List.filter_eq_nil_iff.mpr, List.nil_append, List.filter_eq_self.mpr]
  · exact fun row hrow => (hrest row hrow).1
  · exact fun row hrow => by simp [(hdone row hrow).1]

/-- The rows up to the cursor are those the pass went over. -/
theorem isUpTo_iff (h : mailbox.walk = done ++ rest) (hrow : row ∈ mailbox.rows)
    (hlive : row.is_deleted = false) : row.isUpTo (cursorOf done) = true ↔ row ∈ done := by
  obtain ⟨hdone, hrest⟩ := isAfter_cursorOf h
  refine ⟨fun hupTo => ?_, fun hmem => (hdone row hmem).2⟩
  cases hdate : row.date with
  | none => simp [Row.isUpTo, Row.cursor, hdate] at hupTo
  | some date =>
    have hwalk : row ∈ done ++ rest := h ▸ mem_walk.mpr ⟨hrow, hlive, by simp [hdate]⟩
    rcases List.mem_append.mp hwalk with hmem | hmem
    · exact hmem
    · simp [(hrest row hmem).2] at hupTo

/-! ## Keys of a batch -/

variable {before : List Row} {candidates : List String} {keys : Keys} {columns : Columns}
  {c : String} {resolved : List (String × String)} {batch : List Row}

def Derived (mode : Mode) (columns : Columns) (rows : List Row) : Prop :=
  ∀ pre row post, rows = pre ++ row :: post → Derives mode pre row (columns row.id)

/-- The map has the candidates that are there, with the key of a row that has them. -/
def Resolves (mode : Mode) (candidates : List String) (before : List Row) (keys : Keys) : Prop :=
  ∀ c ∈ candidates, keys.has c = present before c ∧
    (present before c = true → ∃ pre parent post key, before = pre ++ parent :: post ∧
      parent.messageId = some c ∧ Derives mode pre parent key ∧ keys.get c = key.threadId)

/-- `ancestorKeys` after the key of a row. -/
def Keys.setRow (keys : Keys) (row : Row) (threadId : Option String) : Keys :=
  match row.messageId with
  | some messageId => keys.set messageId threadId
  | none => keys

theorem Keys.has_setRow (threadId : Option String) :
    (keys.setRow row threadId).has c = (keys.has c || row.messageId = some c) := by
  unfold Keys.setRow
  split
  · next messageId hid =>
    rw [hid]
    by_cases hsame : messageId = c
    · simp [Keys.has, Keys.set, hsame]
    · have hne : (c == messageId) = false := by simpa using Ne.symm hsame
      simp [Keys.has, Keys.set, List.lookup, hne, hsame]
  · next hid => simp [hid]

theorem Keys.get_setRow (threadId : Option String) : (keys.setRow row threadId).get c =
    if row.messageId = some c then threadId else keys.get c := by
  unfold Keys.setRow
  split
  · next messageId hid =>
    rw [hid]
    by_cases hsame : messageId = c
    · simp [Keys.get, Keys.set, hsame]
    · have hne : (c == messageId) = false := by simpa using Ne.symm hsame
      simp [Keys.get, Keys.set, List.lookup, hne, hsame]
  · next hid => simp [hid]

theorem present_append (rows rows' : List Row) :
    present (rows ++ rows') c = (present rows c || present rows' c) := List.any_append

@[simp] theorem present_singleton : present [row] c = decide (row.messageId = some c) := by
  simp [present]

theorem Resolves.under (h : Resolves mode candidates before keys)
    (hrow : ∀ c ∈ row.candidates, c ∈ candidates) :
    row.under mode keys.has = row.under mode (present before) :=
  Row.under_congr fun c hc => (h c (hrow c hc)).1

theorem Resolves.derives (h : Resolves mode candidates before keys)
    (hrow : ∀ c ∈ row.candidates, c ∈ candidates) :
    Derives mode before row (threadingForRow row mode keys) := by
  rw [threadingForRow_eq, h.under hrow]
  split
  · next c reason hunder =>
    obtain ⟨hc, hpresent⟩ := Row.under_some hunder
    obtain ⟨pre, parent, post, key, rfl, hparent, hderives, hget⟩ := (h c (hrow c hc)).2 hpresent
    rw [hget]
    exact .copy hunder hparent hderives
  · next hunder => exact .own hunder

theorem Resolves.snoc (h : Resolves mode candidates before keys)
    (hrow : Derives mode before row key) :
    Resolves mode candidates (before ++ [row]) (keys.setRow row key.threadId) := by
  intro c hc
  obtain ⟨hhas, hget⟩ := h c hc
  rw [Keys.has_setRow, Keys.get_setRow, present_append, present_singleton, hhas]
  refine ⟨rfl, fun hpresent => ?_⟩
  by_cases hid : row.messageId = some c
  · rw [if_pos hid]
    exact ⟨before, row, [], key, rfl, hid, hrow, rfl⟩
  · rw [if_neg hid]
    have hbefore : present before c = true := by simpa [hid] using hpresent
    obtain ⟨pre, parent, post, key, rfl, hparent, hderives, hsame⟩ := hget hbefore
    exact ⟨pre, parent, post ++ [row], key, by simp, hparent, hderives, hsame⟩

/-- The map after the loop went over the rows. -/
def keysAfter (mode : Mode) : Keys → List Row → Keys
  | keys, [] => keys
  | keys, row :: rows => keysAfter mode (keys.setRow row (threadingForRow row mode keys).threadId) rows

theorem keysAfter_append (mode : Mode) (keys : Keys) (rows rows' : List Row) :
    keysAfter mode keys (rows ++ rows') = keysAfter mode (keysAfter mode keys rows) rows' := by
  induction rows generalizing keys with
  | nil => rfl
  | cons first rows ih => exact ih _

/-- The loop derives each row from the map as the rows before it left it. -/
theorem mem_rekeyRows (mode : Mode) (keys : Keys) (pre : List Row) (row : Row) (post : List Row) :
    (row, threadingForRow row mode (keysAfter mode keys pre)) ∈
      rekeyRows mode keys (pre ++ row :: post) := by
  induction pre generalizing keys with
  | nil => exact List.mem_cons_self ..
  | cons first pre ih => exact List.mem_cons_of_mem _ (ih _)

/-- What each turn of the loop keeps, the loop keeps. -/
theorem keysAfter_induction {I : List Row → Keys → Prop} (h : I before keys)
    (hturn : ∀ {before keys}, ∀ row ∈ batch, I before keys →
      I (before ++ [row]) (keys.setRow row (threadingForRow row mode keys).threadId)) :
    I (before ++ batch) (keysAfter mode keys batch) := by
  induction batch generalizing before keys with
  | nil => simpa [keysAfter] using h
  | cons first batch ih =>
    have hfirst := hturn first (List.mem_cons_self ..) h
    have hbatch := ih hfirst fun row hrow => hturn row (List.mem_cons_of_mem _ hrow)
    simpa [keysAfter] using hbatch

theorem rekeyRows_map_fst (mode : Mode) (keys : Keys) (batch : List Row) :
    (rekeyRows mode keys batch).map (·.1) = batch := by
  induction batch generalizing keys with
  | nil => rfl
  | cons row batch ih => rw [rekeyRows, List.map_cons, ih]

theorem rekeyRows_unique (hdistinct : (batch.map (·.id)).Nodup) {row' : Row} {key' : ThreadKey}
    (h : (row, key) ∈ rekeyRows mode keys batch) (h' : (row', key') ∈ rekeyRows mode keys batch)
    (hid : row'.id = row.id) : key' = key := by
  have hnodup : ((rekeyRows mode keys batch).map (·.1.id)).Nodup := by
    rwa [← rekeyRows_map_fst mode keys batch, List.map_map] at hdistinct
  exact congrArg (·.2) (List.inj_on_of_nodup_map hnodup h' h hid)

/-- A batch writes the key of each of its rows. -/
theorem rekeyBatch_of_mem (hdistinct : (batch.map (·.id)).Nodup)
    (h : (row, key) ∈ rekeyRows mode (.ofResolved resolved) batch) :
    (rekeyBatch mode columns batch resolved).1 row.id = key := by
  simp only [rekeyBatch, writeBatch]
  generalize hupdates : List.map _ (List.filter _ _) = updates
  cases hlookup : updates.lookup row.id with
  | none =>
    by_cases hsame : columns row.id = key
    · exact hsame
    · have hno : (row.id, key) ∉ updates := fun hmem => by
        simpa using List.lookup_eq_none_iff.mp hlookup _ hmem
      rw [← hupdates] at hno
      exact absurd (List.mem_map_of_mem (List.mem_filter.mpr ⟨h, by simpa using hsame⟩)) hno
  | some key' =>
    obtain ⟨pre, post, hsplit, -⟩ := List.lookup_eq_some_iff.mp hlookup
    have hmem : (row.id, key') ∈ updates := hsplit ▸ List.mem_append_right pre (List.mem_cons_self ..)
    rw [← hupdates] at hmem
    obtain ⟨⟨row', key''⟩, hmem', hupdate⟩ := List.mem_map.mp hmem
    obtain ⟨hid, rfl⟩ := Prod.mk.inj hupdate
    exact rekeyRows_unique hdistinct h (List.mem_filter.mp hmem').1 hid

theorem rekeyBatch_of_not_mem {id : Nat} (h : id ∉ batch.map (·.id)) :
    (rekeyBatch mode columns batch resolved).1 id = columns id := by
  simp only [rekeyBatch, writeBatch]
  rw [List.lookup_eq_none_iff.mpr, Option.getD_none]
  intro update hupdate
  obtain ⟨⟨row, key⟩, hmem, rfl⟩ := List.mem_map.mp hupdate
  have hrow : row ∈ batch := by
    rw [← rekeyRows_map_fst mode (.ofResolved resolved) batch]
    exact List.mem_map_of_mem (List.mem_filter.mp hmem).1
  have hne : id ≠ row.id := fun hid => h (hid ▸ List.mem_map_of_mem hrow)
  simpa using hne

theorem mem_resolveAncestors {cursor : Option Cursor} {threadId : String} :
    (c, threadId) ∈ mailbox.resolveAncestors columns candidates cursor ↔
      ∃ row ∈ mailbox.rows, row.is_deleted = false ∧ row.isUpTo cursor = true ∧
        row.message_id = some c ∧ (columns row.id).threadId = some threadId ∧ c ∈ candidates := by
  simp only [Mailbox.resolveAncestors, List.mem_filterMap, List.mem_filter, Bool.and_eq_true,
    Bool.not_eq_true']
  constructor
  · rintro ⟨row, ⟨hrow, hlive, hupTo⟩, hselect⟩
    split at hselect
    · next hid hkey =>
      split at hselect
      · next hmem =>
        cases hselect
        exact ⟨row, hrow, hlive, hupTo, hid, hkey, hmem⟩
      · cases hselect
    · cases hselect
  · rintro ⟨row, hrow, hlive, hupTo, hid, hkey, hmem⟩
    refine ⟨row, ⟨hrow, hlive, hupTo⟩, ?_⟩
    simp [hid, hkey, hmem]

theorem Keys.ofResolved_eq : Keys.ofResolved resolved =
    (resolved.map fun (id, threadId) => (id, some threadId)).reverse := by
  simp [Keys.ofResolved, Keys.set]

theorem Keys.has_ofResolved :
    (Keys.ofResolved resolved).has c = true ↔ ∃ threadId, (c, threadId) ∈ resolved := by
  rw [Keys.has, Keys.ofResolved_eq, List.lookup_isSome_iff]
  simp

theorem Keys.get_ofResolved (h : (Keys.ofResolved resolved).has c = true) :
    ∃ threadId, (c, threadId) ∈ resolved ∧ (Keys.ofResolved resolved).get c = some threadId := by
  obtain ⟨found, hfound⟩ := Option.isSome_iff_exists.mp h
  rw [Keys.get, hfound]
  rw [Keys.ofResolved_eq] at hfound
  obtain ⟨pre, post, hsplit, -⟩ := List.lookup_eq_some_iff.mp hfound
  have hmem : (c, found) ∈ (resolved.map fun (id, threadId) => (id, some threadId)).reverse :=
    hsplit ▸ List.mem_append_right pre (List.mem_cons_self ..)
  obtain ⟨⟨id, threadId⟩, hpair, heq⟩ := List.mem_map.mp (List.mem_reverse.mp hmem)
  cases heq
  exact ⟨threadId, hpair, rfl⟩

/-- An answer in any order, with the keys that the rows have. -/
theorem Derived.resolves (hderived : Derived mode columns done)
    (hanswer : ∀ c ∈ candidates, ∀ threadId, (c, threadId) ∈ resolved ↔
      ∃ row ∈ done, row.messageId = some c ∧ (columns row.id).threadId = some threadId) :
    Resolves mode candidates done (.ofResolved resolved) := by
  have hpresent {c : String} (hc : c ∈ candidates) :
      (Keys.ofResolved resolved).has c = present done c := by
    rw [Bool.eq_iff_iff, Keys.has_ofResolved, present, List.any_eq_true]
    constructor
    · rintro ⟨threadId, hmem⟩
      obtain ⟨row, hrow, hid, -⟩ := (hanswer c hc threadId).mp hmem
      exact ⟨row, hrow, decide_eq_true hid⟩
    · rintro ⟨row, hrow, hid⟩
      obtain ⟨pre, post, hsplit⟩ := List.append_of_mem hrow
      have hid : row.messageId = some c := of_decide_eq_true hid
      obtain ⟨threadId, hkey⟩ := Option.isSome_iff_exists.mp
        ((hderived pre row post hsplit).isSome (by rw [hid]; rfl))
      exact ⟨threadId, (hanswer c hc threadId).mpr ⟨row, hrow, hid, hkey⟩⟩
  intro c hc
  refine ⟨hpresent hc, fun hthere => ?_⟩
  obtain ⟨threadId, hmem, hget⟩ := Keys.get_ofResolved ((hpresent hc).trans hthere)
  obtain ⟨row, hrow, hid, hkey⟩ := (hanswer c hc threadId).mp hmem
  obtain ⟨pre, post, hsplit⟩ := List.append_of_mem hrow
  exact ⟨pre, row, post, columns row.id, hsplit, hid, hderived pre row post hsplit, hget.trans hkey.symm⟩

/-- Of a row whose Message-ID is not empty. -/
theorem messageId_of_message_id (h : row.message_id = some c) (hc : c ≠ "") :
    row.messageId = some c := by
  simp [Row.messageId, truthy, h, hc]

theorem message_id_of_messageId (h : row.messageId = some c) : row.message_id = some c :=
  (Option.filter_eq_some_iff.mp h).1

/-- The database answers for the rows the pass went over. -/
theorem resolves_of_resolved (hdone : mailbox.walk = done ++ rest) (hderived : Derived mode columns done)
    (hcandidates : ∀ c ∈ candidates, c ≠ "")
    (hresolved : resolved.Perm (mailbox.resolveAncestors columns candidates (cursorOf done))) :
    Resolves mode candidates done (.ofResolved resolved) := by
  refine hderived.resolves fun c hc threadId => ?_
  rw [hresolved.mem_iff, mem_resolveAncestors]
  constructor
  · rintro ⟨row, hrow, hlive, hupTo, hid, hkey, -⟩
    exact ⟨row, (isUpTo_iff hdone hrow hlive).mp hupTo,
      messageId_of_message_id hid (hcandidates c hc), hkey⟩
  · rintro ⟨row, hrow, hid, hkey⟩
    obtain ⟨hmem, hlive, -⟩ := mem_walk.mp (hdone ▸ List.mem_append_left rest hrow)
    exact ⟨row, hmem, hlive, (isUpTo_iff hdone hmem hlive).mpr hrow, message_id_of_messageId hid,
      hkey, hc⟩

theorem mem_collectCandidateIds (hrow : row ∈ batch) (hc : c ∈ row.candidates) :
    c ∈ collectCandidateIds batch :=
  List.mem_dedup.mpr (List.mem_flatMap.mpr ⟨row, hrow, hc⟩)

theorem collectCandidateIds_ne_empty (h : c ∈ collectCandidateIds batch) : c ≠ "" := by
  obtain ⟨row, -, hc⟩ := List.mem_flatMap.mp (List.mem_dedup.mp h)
  exact candidates_ne_empty hc

theorem split_append {α : Type} {xs ys pre post : List α} {a : α} (h : xs ++ ys = pre ++ a :: post) :
    (∃ post', xs = pre ++ a :: post') ∨ ∃ pre', pre = xs ++ pre' ∧ ys = pre' ++ a :: post := by
  rcases List.append_eq_append_iff.mp h with ⟨pre', hpre, hys⟩ | ⟨middle, hxs, htail⟩
  · exact .inr ⟨pre', hpre, hys⟩
  · cases middle with
    | nil => exact .inr ⟨[], by simpa using hxs.symm, by simpa using htail.symm⟩
    | cons b middle =>
      obtain ⟨rfl, -⟩ := List.cons.inj htail
      exact .inl ⟨middle, hxs⟩

theorem id_not_mem_batch (hwalk : mailbox.walk = done ++ (batch ++ rest)) (hrow : row ∈ done) :
    row.id ∉ batch.map (·.id) := by
  have hnodup := walk_nodup mailbox
  rw [hwalk, List.map_append, List.map_append, List.nodup_append] at hnodup
  obtain ⟨-, -, hdisjoint⟩ := hnodup
  intro hmem
  exact hdisjoint row.id (List.mem_map_of_mem hrow) row.id (List.mem_append_left _ hmem) rfl

theorem batch_nodup (hwalk : mailbox.walk = done ++ (batch ++ rest)) : (batch.map (·.id)).Nodup := by
  have hnodup := walk_nodup mailbox
  rw [hwalk, List.map_append, List.map_append] at hnodup
  exact (List.nodup_append.mp (List.nodup_append.mp hnodup).2.1).1

/-- **A batch of the walk**: its rows get keys they derive, and those before it keep theirs. -/
theorem Derived.rekeyBatch (hderived : Derived mode columns done)
    (hwalk : mailbox.walk = done ++ (batch ++ rest)) (hresolved : resolved.Perm
      (mailbox.resolveAncestors columns (collectCandidateIds batch) (cursorOf done))) :
    Derived mode (rekeyBatch mode columns batch resolved).1 (done ++ batch) := by
  intro pre row post hsplit
  rcases split_append hsplit with ⟨post', hdone⟩ | ⟨pre', rfl, hbatchEq⟩
  · have hrow : row ∈ done := hdone ▸ by simp
    rw [rekeyBatch_of_not_mem (id_not_mem_batch hwalk hrow)]
    exact hderived pre row post' hdone
  · have hresolves := resolves_of_resolved hwalk hderived
      (fun c => collectCandidateIds_ne_empty) hresolved
    subst hbatchEq
    rw [rekeyBatch_of_mem (batch_nodup hwalk) (mem_rekeyRows mode _ pre' row post)]
    have hloop := keysAfter_induction hresolves fun row' hrow h =>
      h.snoc <| h.derives fun c hc => mem_collectCandidateIds (List.mem_append_left _ hrow) hc
    exact hloop.derives fun c hc => mem_collectCandidateIds (by simp) hc

/-! ## The tail -/

/-- The map of the tail: for a Message-ID that an undated row before has, the last of these. -/
def ResolvesUndated (mode : Mode) (walk : List Row) (candidates : List String) (before : List Row)
    (keys : Keys) : Prop :=
  ∀ c ∈ candidates, keys.has c = present (walk ++ before) c ∧
    (present before c = false → present walk c = true →
      ∃ pre parent post key, walk = pre ++ parent :: post ∧ parent.messageId = some c ∧
        Derives mode pre parent key ∧ keys.get c = key.threadId) ∧
    (present before c = true → ∃ pre parent post key, before = pre ++ parent :: post ∧
      present post c = false ∧ parent.messageId = some c ∧
      DerivesUndated mode walk pre parent key ∧ keys.get c = key.threadId)

variable {walk : List Row}

theorem ResolvesUndated.nil (h : Resolves mode candidates walk keys) :
    ResolvesUndated mode walk candidates [] keys := by
  intro c hc
  obtain ⟨hhas, hget⟩ := h c hc
  rw [List.append_nil]
  exact ⟨hhas, fun _ => hget, nofun⟩

theorem ResolvesUndated.under (h : ResolvesUndated mode walk candidates before keys)
    (hrow : ∀ c ∈ row.candidates, c ∈ candidates) :
    row.under mode keys.has = row.under mode (present (walk ++ before)) :=
  Row.under_congr fun c hc => (h c (hrow c hc)).1

theorem ResolvesUndated.derives (h : ResolvesUndated mode walk candidates before keys)
    (hrow : ∀ c ∈ row.candidates, c ∈ candidates) :
    DerivesUndated mode walk before row (threadingForRow row mode keys) := by
  rw [threadingForRow_eq, h.under hrow]
  split
  · next c reason hunder =>
    obtain ⟨hc, hpresent⟩ := Row.under_some hunder
    obtain ⟨-, hdated, hundated⟩ := h c (hrow c hc)
    cases hbefore : present before c with
    | false =>
      have hwalk : present walk c = true := by simpa [present_append, hbefore] using hpresent
      obtain ⟨pre, parent, post, key, hsplit, hparent, hderives, hget⟩ := hdated hbefore hwalk
      rw [hget]
      exact .dated hunder hbefore hsplit hparent hderives
    | true =>
      obtain ⟨pre, parent, post, key, rfl, hlast, hparent, hderives, hget⟩ := hundated hbefore
      rw [hget]
      exact .undated hunder hlast hparent hderives
  · next hunder => exact .own hunder

theorem ResolvesUndated.snoc (h : ResolvesUndated mode walk candidates before keys)
    (hrow : DerivesUndated mode walk before row key) :
    ResolvesUndated mode walk candidates (before ++ [row]) (keys.setRow row key.threadId) := by
  intro c hc
  obtain ⟨hhas, hdated, hundated⟩ := h c hc
  have hsnoc (rows : List Row) :
      present (rows ++ [row]) c = (present rows c || row.messageId = some c) := by
    rw [present_append, present_singleton]
  rw [Keys.has_setRow, Keys.get_setRow, ← List.append_assoc, hsnoc (walk ++ before), hsnoc before,
    hhas]
  refine ⟨rfl, ?_⟩
  by_cases hid : row.messageId = some c
  · simp only [hid, if_true, decide_true, Bool.or_true]
    exact ⟨nofun, fun _ => ⟨before, row, [], key, rfl, rfl, hid, hrow, rfl⟩⟩
  · simp only [hid, if_false, decide_false, Bool.or_false]
    refine ⟨hdated, fun hbefore => ?_⟩
    obtain ⟨pre, parent, post, key, rfl, hlast, hparent, hderives, hget⟩ := hundated hbefore
    refine ⟨pre, parent, post ++ [row], key, by simp, ?_, hparent, hderives, hget⟩
    rw [present_append, hlast, present_singleton]
    simp [hid]

def DerivedUndated (mode : Mode) (columns : Columns) (walk undated : List Row) : Prop :=
  ∀ pre row post, undated = pre ++ row :: post →
    DerivesUndated mode walk pre row (columns row.id)

theorem rekeyTail_apply (hsplit : mailbox.selectUndated = pre ++ row :: post) :
    (rekeyBatch mode columns mailbox.selectUndated resolved).1 row.id =
      threadingForRow row mode (keysAfter mode (.ofResolved resolved) pre) := by
  have hmem := mem_rekeyRows mode (.ofResolved resolved) pre row post
  rw [← hsplit] at hmem
  exact rekeyBatch_of_mem selectUndated_nodup hmem

/-- The map of the tail after some of its rows. -/
theorem Derived.resolvesUndated (hderived : Derived mode columns mailbox.walk)
    (hresolved : resolved.Perm (mailbox.resolveAncestors columns
      (collectCandidateIds mailbox.selectUndated) (cursorOf mailbox.walk)))
    (hsplit : mailbox.selectUndated = pre ++ post) :
    ResolvesUndated mode mailbox.walk (collectCandidateIds mailbox.selectUndated) pre
      (keysAfter mode (.ofResolved resolved) pre) := by
  have hresolves := resolves_of_resolved (List.append_nil _).symm hderived
    (fun c => collectCandidateIds_ne_empty) hresolved
  refine keysAfter_induction (ResolvesUndated.nil hresolves) fun row hrow h => ?_
  refine h.snoc <| h.derives fun c hc => mem_collectCandidateIds ?_ hc
  exact hsplit ▸ List.mem_append_left _ hrow

/-- **The tail**: the undated rows get keys they derive, and those of the walk keep theirs. -/
theorem Derived.rekeyTail (hderived : Derived mode columns mailbox.walk)
    (hresolved : resolved.Perm (mailbox.resolveAncestors columns
      (collectCandidateIds mailbox.selectUndated) (cursorOf mailbox.walk))) :
    Derived mode (Threading.rekeyBatch mode columns mailbox.selectUndated resolved).1 mailbox.walk ∧
      DerivedUndated mode (Threading.rekeyBatch mode columns mailbox.selectUndated resolved).1
        mailbox.walk mailbox.selectUndated := by
  constructor
  · intro pre row post hsplit
    have hrow : row ∈ mailbox.walk := hsplit ▸ by simp
    rw [rekeyBatch_of_not_mem (id_not_mem_selectUndated hrow)]
    exact hderived pre row post hsplit
  · intro pre row post hsplit
    rw [rekeyTail_apply hsplit]
    refine (hderived.resolvesUndated hresolved hsplit).derives fun c hc => ?_
    exact mem_collectCandidateIds (hsplit ▸ by simp) hc

end MailExpert.Threading
