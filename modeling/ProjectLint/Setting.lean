import ProjectLint.Json.Value

/-!
Settings as a caller gives them. A setting that should be a text may be left out, or be given some
other value. A value that counts as absent turns the setting off; any other one that is no text
cannot be used.
-/

namespace ProjectLint

/-- A setting: left out, a text, or another value. -/
inductive Setting where
  | unset
  | text (t : Text)
  | other (value : Json)
deriving Inhabited

namespace Setting

/-- Whether a setting has no effect: it is left out, empty, or turned off. -/
def isBlank : Setting → Bool
  | unset => true
  | text t => t.isEmpty
  | other value => value.isBlank

/-- Whether a setting has a value that is no text and does not turn it off either. -/
def isUnusable : Setting → Bool
  | other value => !value.isBlank
  | unset | text _ => false

/-- A setting, or the text that counts where it is left out. -/
def orText : Setting → Option Text → Setting
  | unset, some t => text t
  | setting, _ => setting

end Setting
end ProjectLint
