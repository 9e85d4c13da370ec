import Mathlib.Data.List.Basic
import Mathlib.Data.List.Flatten
import UpdateFeed.Log.Line

/-!
# Lines of a log

A log is read line by line.  An event gives one line, or more than one if there are line breaks in
its message.  A filter decides about whole events, so the lines of an event come together or not at
all.

- `lines_render`: the lines of a log are those of the events that its filter shows.
- `lines_render_sublist`: a filter that shows more keeps what is shown, in its order.
-/

namespace UpdateFeed.Log

/-- The lines of a text, each of which ends in a line break. -/
def lines (text : String) : List String :=
  (text.toList.splitOn '\n').dropLast.map String.ofList

/-- The lines of a text in two parts, of which the first one ends in a line break. -/
theorem lines_append (first second : String) :
    lines (first ++ "\n" ++ second) = lines (first ++ "\n") ++ lines second := by
  have hfirst : (first ++ "\n").toList = first.toList ++ '\n' :: [] := by simp
  have hwhole : (first ++ "\n" ++ second).toList = first.toList ++ '\n' :: second.toList := by simp
  unfold lines
  rw [hfirst, hwhole, List.splitOn_append_cons_self, List.splitOn_append_cons_self,
    List.dropLast_append_of_ne_nil (List.splitOn_ne_nil _ _),
    List.dropLast_append_of_ne_nil (List.splitOn_ne_nil _ _)]
  simp

/-- The lines of events, one after the other. -/
theorem lines_join (terminal : Bool) (events : List Event) :
    lines (String.join (events.map (Event.render terminal))) =
      events.flatMap fun event => lines (event.render terminal) := by
  induction events with
  | nil => rfl
  | cons event events ih =>
    rw [List.map_cons, List.flatMap_cons, ← ih]
    have hjoin : String.join (event.render terminal :: events.map (Event.render terminal)) =
        event.render terminal ++ String.join (events.map (Event.render terminal)) := by
      apply String.toList_inj.mp
      simp
    rw [hjoin]
    exact lines_append _ _

/-- The lines of a log. -/
theorem lines_render (filter : Filter) (terminal : Bool) (events : List Event) :
    lines (render filter terminal events) =
      (events.filter filter.allows).flatMap fun event => lines (event.render terminal) :=
  lines_join terminal _

/-- A filter that shows more keeps the lines that are shown, in their order. -/
theorem lines_render_sublist {less more : Filter}
    (h : ∀ event, less.allows event → more.allows event) (terminal : Bool)
    (events : List Event) :
    (lines (render less terminal events)).Sublist (lines (render more terminal events)) := by
  rw [lines_render, lines_render]
  apply List.Sublist.flatMap
  exact List.monotone_filter_right events h

end UpdateFeed.Log
