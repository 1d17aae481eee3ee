import TypedResources.Config.Load
import TypedResources.Proofs.Yaml.Building
import TypedResources.Proofs.Yaml.Values

/-! What becomes of a configuration file, whatever its bytes: it is laid over the defaults, it
configures nothing, or it is refused, and not always as a configuration. Some documents are left out of
this: those that take half of a surrogate pair for a character, and those whose meaning depends on which
of their nodes or numbers are one object, such as a collection that contains itself. -/
namespace TypedResources

namespace Config

def HasMisfit (text : String) (wrong : Yaml.Fault) : Prop :=
  ∃ root part, Yaml.readDocument text.toList = .ok (some root) ∧ root.Contains part ∧
    Yaml.Misfit part wrong

def HasAlias (text : String) : Prop :=
  ∃ name, .alias name ∈ (Yaml.Tokens.ofText text.toList).list

/-- A document without a value has a wrong form, or the text escapes a number that no character has,
or a part of the document is a misfit, or an alias stands for what cannot be written down twice. -/
theorem explained_of_readValue {text : String} {wrong : Yaml.Fault}
    (h : readValue text = .error wrong) :
    wrong = .malformed ∨ Yaml.EscapesNoCharacter text.toList wrong ∨ HasMisfit text wrong ∨
      (wrong = .identity ∧ HasAlias text) := by
  unfold readValue at h
  cases hread : Yaml.readDocument text.toList with
  | error fault =>
    rw [hread] at h
    obtain rfl := Except.error.inj h
    exact (Yaml.fault_of_readDocument hread).imp_right (.imp_right .inr)
  | ok root =>
    rw [hread] at h
    cases root with
    | none => cases h
    | some root =>
      refine (Yaml.explains_of_value h).imp_right fun ⟨part,hcontains,hmisfit⟩ => ?_
      exact .inr (.inl ⟨root,part,hread,hcontains,hmisfit⟩)

/-- Nothing is said of the text: its document may have a value, but none of those here. -/
def IsLeftOut (text : String) : Prop :=
  ∃ wrong, readValue text = .error wrong ∧ wrong.isLeftOut = true

/-- A text that is left out escapes half of a surrogate pair, or it has an alias, or a part of its
document does not mean by itself what it means. -/
theorem IsLeftOut.reason {text : String} (h : IsLeftOut text) :
    Yaml.EscapesNoCharacter text.toList .surrogate ∨ HasAlias text ∨ HasMisfit text .identity := by
  obtain ⟨wrong,hread,hout⟩ := h
  rcases explained_of_readValue hread with rfl | hescape | hmisfit | ⟨-,halias⟩
  · cases hout
  · exact .inl (Yaml.surrogate_of_escapes hescape hout ▸ hescape)
  · obtain ⟨root,part,hroot,hcontains,hmisfit⟩ := hmisfit
    obtain rfl := Yaml.identity_of_misfit hmisfit hout
    exact .inr (.inr ⟨root,part,hroot,hcontains,hmisfit⟩)
  · exact .inr (.inl halias)

end Config
end TypedResources
