import Verdict.Condition.Basic

/-!
# Metadata of a reference

A condition that takes the place of a reference takes over its name, its extra members
and, if it is no group or negation, its priority, each only where it has none of its own.
-/
namespace Verdict.Condition

def inherit (c : Condition) (r : Reference) : Condition :=
  match c with
  | group q h cs =>
    group q { h with name := h.name.or r.name, extra := h.extra.addMissing r.extra } cs
  | not h c => not { h with name := h.name.or r.name, extra := h.extra.addMissing r.extra } c
  | reference r' =>
    reference { r' with
      name := r'.name.or r.name
      priority := r'.priority.or r.priority
      extra := r'.extra.addMissing r.extra }
  | leaf l =>
    leaf { l with
      name := l.name.or r.name
      priority := l.priority.or r.priority
      extra := l.extra.addMissing r.extra }

end Verdict.Condition
