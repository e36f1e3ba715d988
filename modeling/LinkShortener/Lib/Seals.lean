import Mathlib.Data.List.Basic

/-!
# Sealed texts

A text may open to a content: a signed value to the value, a token to what it names. Whoever does not have the key can copy
what was issued and make up texts that open to nothing, but not a text that opens to something new. A text is genuine when
all it opens to was issued.
-/

namespace Seals

variable {Text Content : Type} {opens : Text → Content → Prop} {issued issued' : List Content} {text : Text}

/-- Whatever the text opens to was issued. -/
def Genuine (opens : Text → Content → Prop) (issued : List Content) (text : Text) : Prop :=
  ∀ content, opens text content → content ∈ issued

theorem Genuine.mono (h : Genuine opens issued text) (hsub : issued ⊆ issued') : Genuine opens issued' text :=
  fun content hopens => hsub (h content hopens)

/-- A text that opens to one content only. -/
theorem genuine_of_unique {content : Content} (hunique : ∀ other, opens text other → other = content)
    (hissued : content ∈ issued) : Genuine opens issued text := by
  intro other hopens
  rw [hunique other hopens]
  exact hissued

end Seals
