import MailExpert.Threading.Trees

/-!
# The order of arrival

However the messages of some reply trees come, one after another, live threading ends with the key of its root for each.
-/

namespace MailExpert.Threading

variable {mailbox : Mailbox} {columns₀ : Columns} {order rows : List Row} {row : Row} {root : String} {path : List String}

theorem NoCopies.perm (h : NoCopies rows) (hperm : rows.Perm order) : NoCopies order := by
  refine (hperm.pairwise_iff fun {a b} hab c hb ha => ?_).mp h
  exact hab c ha hb

theorem order_perm (hlive : ∀ row ∈ mailbox.rows, row.is_deleted = false) : mailbox.order.Perm mailbox.rows := by
  have hdated : (mailbox.rows.filter fun row => !row.is_deleted && row.date.isSome) = mailbox.rows.filter (·.date.isSome) := by
    refine List.filter_congr fun row hrow => ?_
    simp [hlive row hrow]
  have hundated : (mailbox.rows.filter fun row => !row.is_deleted && row.date.isNone) = mailbox.rows.filter fun row => !row.date.isSome := by
    refine List.filter_congr fun row hrow => ?_
    simp [hlive row hrow]
  rw [Mailbox.order, Mailbox.walk, Mailbox.selectUndated, hdated, hundated]
  exact ((List.perm_insertionSort _ _).append (List.perm_insertionSort _ _)).trans (List.filter_append_perm _ _)

/-- The messages can be stored in every order. -/
theorem Live.exists (horder : (order.map (·.id)).Nodup) : ∃ columns, Live .rfc columns₀ order columns := by
  induction order using List.reverseRecOn with
  | nil => exact ⟨columns₀, .nil⟩
  | append_singleton order row ih =>
    rw [List.map_append, List.nodup_append] at horder
    obtain ⟨hnodup, -, hdisjoint⟩ := horder
    obtain ⟨columns, hlive⟩ := ih hnodup
    exact ⟨_, hlive.arrive (fun hmem => hdisjoint _ hmem row.id (by simp) rfl) (.refl _)⟩

/-- **The key of a conversation** is its root's Message-ID, in whatever order its messages and those of other trees were stored. -/
theorem arrival_order (hcopies : NoCopies mailbox.rows) (hlive : ∀ row ∈ mailbox.rows, row.is_deleted = false)
    (horder : order.Perm mailbox.rows) (columns₀ : Columns) : (∃ columns, Live .rfc columns₀ order columns) ∧
      ∀ columns, Live .rfc columns₀ order columns → ∀ row root path, InTree mailbox row root path →
        (columns row.id).threadId = some root := by
  refine ⟨Live.exists ((horder.map _).nodup_iff.mpr mailbox.distinct), fun columns hrun row root path htree => ?_⟩
  have hperm : mailbox.order.Perm mailbox.rows := order_perm hlive
  exact hrun.groupsTrees (hcopies.perm hperm.symm) (fun row => (horder.trans hperm.symm).mem_iff) htree

/-- The reply of the reply comes first, the root last. -/
theorem arrival_order_reversed : ∃ columns, Live .rfc unthreaded.columns [third, second, first] columns ∧
    (columns third.id).threadId = some "<r>" := by
  have hcopies : NoCopies skewed.rows := by simp [NoCopies, skewed, first, second, third, Row.messageId, truthy]
  obtain ⟨⟨columns, hrun⟩, hkeys⟩ := arrival_order hcopies (by decide)
    (show [third, second, first].Perm skewed.rows by decide) unthreaded.columns
  have hfirst : InTree skewed first "<r>" [] := .root (by decide) rfl (by decide) (by decide)
  have hsecond : InTree skewed second "<r>" ([] ++ ["<r>"]) := .reply hfirst (by decide) (by decide) rfl (by decide) (by decide) (by decide)
  have hthird : InTree skewed third "<r>" (([] ++ ["<r>"]) ++ ["<c>"]) :=
    .reply hsecond (by decide) (by decide) rfl (by decide) (by decide) (by decide)
  exact ⟨columns, hrun, hkeys columns hrun third "<r>" _ hthird⟩

end MailExpert.Threading
