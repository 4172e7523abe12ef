import MailExpert.Sanitizer.Dark
import MailExpert.Sanitizer.Tags
import MailExpert.Sanitizer.Urls

/-!
# The scanners are their patterns
-/

namespace MailExpert.Sanitizer

open Regex

/-- `text.replace(pattern, '…')`, with a constant text. -/
def replaceWith (pattern : Regex Nat) (by' text : Text) : Text := pattern.replaceAll (fun _ _ => by') text

/-- Every scanner gives what the pattern that it stands for gives, and `scanPaired` calls its transform on the spans of the matches in order. -/
theorem scanners_are_patterns (text : Text) :
    stripDarkMediaBlocks text = replaceWith darkMedia [] text ∧ stripOutlookDarkRules text = replaceWith outlookRule [] text ∧
      stripExternalCssUrls text = replaceWith externalUrl (codes "url()") text ∧ stripMsoConditionals text = replaceWith msoConditional [] text ∧
      ∀ (name : OpenName) (close : Text) (transform : Span → Text), scanPaired text name close transform =
        ((paired name close).replaceAll (fun _ m => transform (.of text m)) text,
          ((paired name close).allMatches text).map fun m => .of text m.2) := by
  refine ⟨?_, ?_, ?_, ?_, fun name close transform => ?_⟩
  · exact (stripDarkMediaBlocks.loop_eq [] 0 0).trans (List.nil_append _)
  · exact (stripOutlookDarkRules.loop_eq [] 0 0).trans (List.nil_append _)
  · exact (stripExternalCssUrls.loop_eq [] 0 0 (-1) (-1) (.inl (by decide))).trans (List.nil_append _)
  · exact (stripMsoConditionals.loop_eq [] 0 0).trans (List.nil_append _)
  · exact (scanPaired.loop_eq transform [] [] 0 0).trans (by rw [List.nil_append, List.nil_append]; rfl)

end MailExpert.Sanitizer
