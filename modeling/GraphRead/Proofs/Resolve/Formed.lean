import GraphRead.Binding.Bound
/-!
What holds of a target and of all targets below it.

A record asks for every association under a key of its own, and the targets of one association
belong together in some way (`Target.Formed`). Which way that is depends on what is to be shown, so
it is a parameter.
-/

namespace GraphRead

/-- The associations of a target have distinct keys, the targets of each of them belong together,
and so on below. -/
inductive Target.Formed (together : List Target → Prop) : Target → Prop
  | intro {target : Target}
    (distinct : ∀ f, target.record? = some f → (f.links.map Prod.fst).Nodup)
    (grouped : ∀ f, target.record? = some f → ∀ key l, (key, l) ∈ f.links → together l.targets)
    (below : ∀ f, target.record? = some f → ∀ key l, (key, l) ∈ f.links →
      ∀ child ∈ l.targets, child.Formed together) :
    target.Formed together

namespace Target.Formed

variable {together : List Target → Prop} {target : Target} {f : BoundField}

theorem keys_nodup (formed : target.Formed together) (asked : target.record? = some f) :
    (f.links.map Prod.fst).Nodup := by
  cases formed with
  | intro distinct _ _ => exact distinct f asked

theorem together_of_mem (formed : target.Formed together) (asked : target.record? = some f)
    {key : String} {l : BoundLink} (linked : (key, l) ∈ f.links) : together l.targets := by
  cases formed with
  | intro _ grouped _ => exact grouped f asked key l linked

theorem child (formed : target.Formed together) (asked : target.record? = some f) {key : String}
    {l : BoundLink} (linked : (key, l) ∈ f.links) {child : Target} (reached : child ∈ l.targets) :
    child.Formed together := by
  cases formed with
  | intro _ _ below => exact below f asked key l linked child reached

end Target.Formed

end GraphRead
