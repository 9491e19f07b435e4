import Mathlib.Data.List.Basic

/-! Trees with any number of children. A walk from the root down gives each node what it
makes of the node above; where that is read off the labels on the way, the walk is a map
over the trails. -/

namespace Foundation

inductive Rose (α : Type) where
  | node (label : α) (children : List (Rose α))

namespace Rose

variable {α β γ : Type}

theorem induct {P : Rose α → Prop} (node : ∀ a ts, (∀ t ∈ ts, P t) → P (.node a ts)) :
    ∀ t, P t
  | .node a ts => node a ts fun t _ => induct node t

def label : Rose α → α
  | node a _ => a

def setLabel (a : α) : Rose α → Rose α
  | node _ ts => node a ts

def add (t : Rose α) : Rose α → Rose α
  | node a ts => node a (ts ++ [t])

def labels : Rose α → List α
  | node a ts => a :: ts.flatMap labels

def map (f : α → β) : Rose α → Rose β
  | node a ts => node (f a) (ts.map (map f))

def descend (f : β → α → β) (b : β) : Rose α → Rose β
  | node a ts => node (f b a) (ts.map (descend f (f b a)))

def descendM (f : β → α → Option β) (b : β) : Rose α → Option (Rose β)
  | node a ts => do
    let v ← f b a
    pure (node v (← ts.mapM (descendM f v)))

def trail (above : List α) (t : Rose α) : Rose (List α) :=
  t.descend (fun above a => above ++ [a]) above

theorem labels_node (a : α) (ts : List (Rose α)) :
    labels (node a ts) = a :: ts.flatMap labels := by
  rw [labels]

theorem map_node (f : α → β) (a : α) (ts : List (Rose α)) :
    map f (node a ts) = node (f a) (ts.map (map f)) := by
  rw [map]

theorem descend_node (f : β → α → β) (b : β) (a : α) (ts : List (Rose α)) :
    descend f b (node a ts) = node (f b a) (ts.map (descend f (f b a))) := by
  rw [descend]

theorem descendM_some (f : β → α → β) (b : β) (t : Rose α) :
    t.descendM (fun b a => some (f b a)) b = some (t.descend f b) := by
  induction t using induct generalizing b with
  | node a ts ih =>
    have children : ts.mapM (descendM (fun b a => some (f b a)) (f b a)) =
        some (ts.map (descend f (f b a))) := by
      induction ts with
      | nil => rfl
      | cons t ts rest =>
        rw [List.mapM_cons, ih t (by simp), rest fun t child => ih t (by simp [child])]
        rfl
    rw [descendM, descend_node, Option.bind_eq_bind, Option.bind_some, children]
    rfl

theorem descend_self {f : β → β → β} (same : ∀ b a, f b a = a) (b : β) (t : Rose β) :
    t.descend f b = t := by
  induction t using induct generalizing b with
  | node a ts ih =>
    rw [descend_node, same, List.map_congr_left fun t child => ih t child a, List.map_id']

theorem descend_map (f : β → γ → β) (h : α → γ) (b : β) (t : Rose α) :
    (t.map h).descend f b = t.descend (fun b a => f b (h a)) b := by
  induction t using induct generalizing b with
  | node a ts ih =>
    rw [map_node, descend_node, descend_node, List.map_map]
    exact congrArg _ (List.map_congr_left fun t child => ih t child _)

/-- One walk after another is a single walk, if `R` relates what the three have above a
node. -/
theorem descend_descend {f : β → α → β} {g : γ → β → γ} {h : γ → α → γ}
    (R : β → γ → γ → Prop)
    (step : ∀ b c d a, R b c d → g c (f b a) = h d a ∧ R (f b a) (g c (f b a)) (h d a))
    {b : β} {c d : γ} (start : R b c d) (t : Rose α) :
    (t.descend f b).descend g c = t.descend h d := by
  induction t using induct generalizing b c d with
  | node a ts ih =>
    obtain ⟨same, next⟩ := step b c d a start
    rw [descend_node, descend_node, descend_node, List.map_map, same]
    rw [same] at next
    exact congrArg _ (List.map_congr_left fun t child => ih t child next)

theorem descend_eq_trail {f : β → α → β} {g : List α → β} (I : List α → β → Prop)
    (step : ∀ above b a, I above b → f b a = g (above ++ [a]) ∧ I (above ++ [a]) (f b a))
    {above : List α} {b : β} (start : I above b) (t : Rose α) :
    t.descend f b = (t.trail above).map g := by
  induction t using induct generalizing above b with
  | node a ts ih =>
    obtain ⟨same, next⟩ := step above b a start
    rw [trail, descend_node, descend_node, map_node, List.map_map, same]
    rw [same] at next
    exact congrArg _ (List.map_congr_left fun t child => ih t child next)

end Rose

end Foundation
