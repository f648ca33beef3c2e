import DocLayout.Proofs.Run
import Mathlib.Data.List.Induction

/-! # The lines of an output

Events as they stand on the page: on each line the events that wrote it, and its text.

* **Writing.**  An event puts its `ink` on the line that is being written; one with a newline then
  ends the line, and its indentation begins the next one (`Page.write`).
* **Output.**  `Page.text_pageOf` : the text of the page is the output of the events.  Where no line
  feed is in the ink, the lines of the page are what the output falls into at its line feeds
  (`splitOn_output`).
* **Widths.**  What a run has written is within the width of all that it writes in the end
  (`Renderer.Run.within`).
* **Columns.**  At every state of a run the column of the renderer is the width of the line that
  is being written (`Renderer.Aligned`). -/

namespace DocLayout

namespace Event

/-- What an event writes on the line on which it stands. -/
def ink : Event → Text
  | text t => t
  | flat t => t
  | broken t _ => t
  | newline _ => []
  | group _ => []
  | forced => []

/-- The indentation of the line that an event starts, if it starts one. -/
def newIndent? : Event → Option Int
  | broken _ indent => some indent
  | newline indent => some indent
  | _ => none

theorem flatten_written (t : Text) : (written t).flatten = t := by
  unfold written
  split
  · next h => rw [h]; rfl
  · simp

end Event

/-- A line of the output. -/
structure PrintedLine where
  /-- The events that stand on it, in order. -/
  events : List Event
  text : Text

/-- The line with one more event. -/
def PrintedLine.add (l : PrintedLine) (e : Event) : PrintedLine :=
  ⟨l.events ++ [e], l.text ++ e.ink⟩

/-- The lines that are finished, and the one that is being written. -/
structure Page where
  done : List PrintedLine
  current : PrintedLine

namespace Page

/-- A page on which nothing is written. -/
def blank : Page := ⟨[], ⟨[], []⟩⟩

/-- The page with one more event. -/
def write (p : Page) (e : Event) : Page :=
  match e.newIndent? with
  | none => ⟨p.done, p.current.add e⟩
  | some indent => ⟨p.done ++ [p.current.add e], ⟨[], Text.spaces indent.toNat⟩⟩

theorem write_of_none {p : Page} {e : Event} (h : e.newIndent? = none) :
    p.write e = ⟨p.done, p.current.add e⟩ := by
  rw [write, h]

theorem write_of_some {p : Page} {e : Event} {i : Int} (h : e.newIndent? = some i) :
    p.write e = ⟨p.done ++ [p.current.add e], ⟨[], Text.spaces i.toNat⟩⟩ := by
  rw [write, h]

/-- All lines. -/
def lines (p : Page) : List PrintedLine := p.done ++ [p.current]

/-- The text on the page: a line feed ends every line but the last. -/
def text (p : Page) : Text :=
  (p.done.flatMap fun l => l.text ++ [CodePoint.lineFeed]) ++ p.current.text

end Page

/-- The page that some events write. -/
def pageOf (events : List Event) : Page := events.foldl Page.write .blank

/-- The lines that some events write. -/
def printedLines (events : List Event) : List PrintedLine := (pageOf events).lines

@[simp] theorem pageOf_append_singleton (events : List Event) (e : Event) :
    pageOf (events ++ [e]) = (pageOf events).write e := by
  simp [pageOf, List.foldl_append]

/-- There is one line more than there are events that start one. -/
theorem length_printedLines (events : List Event) :
    (printedLines events).length = events.countP (·.newIndent?.isSome) + 1 := by
  induction events using List.reverseRecOn with
  | nil => rfl
  | append_singleton events e ih =>
      rw [printedLines, Page.lines, List.length_append, List.length_singleton] at ih
      rw [printedLines, Page.lines, pageOf_append_singleton, Page.write, List.countP_append]
      cases hn : e.newIndent? with
      | none => simp [hn] at ih ⊢; omega
      | some indent => simp [hn] at ih ⊢; omega

namespace Page

/-! ### The output -/

theorem text_write (p : Page) (e : Event) : (p.write e).text = p.text ++ e.fragments.flatten := by
  cases e <;>
    simp [write, Event.newIndent?, text, PrintedLine.add, Event.ink, Event.fragments,
      Event.flatten_written, Text.newline]

theorem text_pageOf (events : List Event) :
    (pageOf events).text = (events.flatMap Event.fragments).flatten := by
  induction events using List.reverseRecOn with
  | nil => rfl
  | append_singleton events e ih =>
      rw [pageOf_append_singleton, text_write, ih]
      simp

theorem splitOn_text {p : Page} (h : ∀ l ∈ p.lines, CodePoint.lineFeed ∉ l.text) :
    p.text.splitOn CodePoint.lineFeed = p.lines.map PrintedLine.text := by
  obtain ⟨done, current⟩ := p
  induction done with
  | nil => exact List.splitOn_eq_singleton (h current (by simp [lines]))
  | cons l done ih =>
      have hl : CodePoint.lineFeed ∉ l.text := h l (by simp [lines])
      have hrest := ih fun l' hl' => h l' (by simp [lines] at hl' ⊢; exact Or.inr hl')
      have e : text ⟨l :: done, current⟩ =
          l.text ++ CodePoint.lineFeed :: text ⟨done, current⟩ := by simp [text]
      rw [e, List.splitOn_append_cons_self_of_not_mem hl, hrest]
      rfl

theorem lineFeed_notMem_pageOf {events : List Event}
    (h : ∀ e ∈ events, CodePoint.lineFeed ∉ e.ink) :
    ∀ l ∈ printedLines events, CodePoint.lineFeed ∉ l.text := by
  induction events using List.reverseRecOn with
  | nil => simp [printedLines, lines, pageOf, blank]
  | append_singleton events e ih =>
      have hink : CodePoint.lineFeed ∉ e.ink := h e (by simp)
      have hold := ih fun e' he' => h e' (by simp [he'])
      have hadd : CodePoint.lineFeed ∉ ((pageOf events).current.add e).text := by
        have hcur := hold (pageOf events).current (by simp [printedLines, lines])
        simp [PrintedLine.add, hcur, hink]
      intro l hl
      rw [printedLines, pageOf_append_singleton, write] at hl
      cases hn : e.newIndent? with
      | none =>
          simp only [hn, lines, List.mem_append, List.mem_singleton] at hl
          rcases hl with hl | rfl
          · exact hold l (by simp [printedLines, lines, hl])
          · exact hadd
      | some indent =>
          simp only [hn, lines, List.mem_append, List.mem_singleton] at hl
          rcases hl with (hl | rfl) | rfl
          · exact hold l (by simp [printedLines, lines, hl])
          · exact hadd
          · simp [Text.spaces, CodePoint.lineFeed, CodePoint.space]

/-! ### Columns -/

theorem byteWidth_current_write {p : Page} {column : Int} (e : Event)
    (h : column = p.current.text.byteWidth) (hindent : ∀ i, e.newIndent? = some i → 0 ≤ i) :
    e.after column = ((p.write e).current.text.byteWidth : Int) := by
  cases e with
  | broken b i =>
      have hi : 0 ≤ i := hindent i rfl
      simp only [write, Event.newIndent?, Event.after, Text.byteWidth_spaces]
      omega
  | newline i =>
      have hi : 0 ≤ i := hindent i rfl
      simp only [write, Event.newIndent?, Event.after, Text.byteWidth_spaces]
      omega
  | _ => simp [write, Event.newIndent?, Event.after, PrintedLine.add, Event.ink, h]

/-! ### Widths -/

/-- No line of the page is wider than some columns. -/
def Within (w : Nat) (p : Page) : Prop := ∀ l ∈ p.lines, l.text.byteWidth ≤ w

theorem Within.of_write {w : Nat} {p : Page} {e : Event} (h : (p.write e).Within w) :
    p.Within w := by
  obtain ⟨hdone, hadd⟩ : (∀ l ∈ p.done, l.text.byteWidth ≤ w) ∧
      (p.current.add e).text.byteWidth ≤ w := by
    cases he : e.newIndent? with
    | none =>
        rw [write_of_none he] at h
        exact List.forall_mem_append.mp h |>.imp_right fun h => h _ (List.mem_singleton_self _)
    | some i =>
        rw [write_of_some he] at h
        have hlines := List.forall_mem_append.mp (List.forall_mem_append.mp h).1
        exact hlines.imp_right fun h => h _ (List.mem_singleton_self _)
  rw [PrintedLine.add, Text.byteWidth_append] at hadd
  refine List.forall_mem_append.mpr ⟨hdone, List.forall_mem_singleton.mpr ?_⟩
  omega

end Page

/-- **The lines of the output**: without line feeds in the ink, the output falls into the printed
lines at its line feeds. -/
theorem splitOn_output {events : List Event} (h : ∀ e ∈ events, CodePoint.lineFeed ∉ e.ink) :
    (events.flatMap Event.fragments).flatten.splitOn CodePoint.lineFeed =
      (printedLines events).map PrintedLine.text := by
  rw [← Page.text_pageOf]
  exact Page.splitOn_text (Page.lineFeed_notMem_pageOf h)

namespace Doc

/-- The texts of a node hold no line feed. -/
def NewlineFree : Doc → Prop
  | text t _ => CodePoint.lineFeed ∉ t
  | separator f b _ => CodePoint.lineFeed ∉ f ∧ CodePoint.lineFeed ∉ b
  | _ => True

instance : DecidablePred NewlineFree
  | text t _ => inferInstanceAs (Decidable (CodePoint.lineFeed ∉ t))
  | separator f b _ =>
      inferInstanceAs (Decidable (CodePoint.lineFeed ∉ f ∧ CodePoint.lineFeed ∉ b))
  | nil | line | breakParent | concat _ _ _ | nest _ _ _ | group _ _ | foreign _ _ =>
      .isTrue trivial

theorem lineFeed_notMem_ink {d : Doc} (h : d.Everywhere NewlineFree) {σ : Assignment}
    {indent column : Int} {mode : Mode} :
    ∀ e ∈ d.laidOut σ indent mode column, CodePoint.lineFeed ∉ e.ink := by
  induction d generalizing σ indent column mode with
  | text t k =>
      have ht : CodePoint.lineFeed ∉ t := h
      simpa [laidOut, Event.ink] using ht
  | separator f b k =>
      cases mode with
      | flat => simpa [laidOut, Event.ink] using h.1
      | broken => simpa [laidOut, Event.ink] using h.2
  | concat l r b ihl ihr =>
      intro e he
      simp only [laidOut, List.mem_append] at he
      rcases he with he | he
      · exact ihl h.2.1 e he
      · exact ihr h.2.2 e he
  | nest d level b ih => exact ih h.2
  | group d b ih =>
      rw [laidOut, List.forall_mem_cons]
      exact ⟨by simp [Event.ink], ih h.2⟩
  | _ => simp [laidOut, Event.ink]

end Doc

namespace Renderer

/-- The page that has been written up to a state. -/
def State.page (s : State) : Page := pageOf s.trace.toList

@[simp] theorem page_push (stack : List (Command Int)) (column : Int) (trace : Array Event)
    (e : Event) : State.page ⟨stack, column, trace.push e⟩ = (pageOf trace.toList).write e := by
  simp [State.page]

/-- A step writes one event at most. -/
theorem page_of_step {width : Width} {c : Command Int} {rest : List (Command Int)} {column : Int}
    {trace : Array Event} {s' : State} (hs : step width c ⟨rest, column, trace⟩ = .ok s') :
    s'.page = pageOf trace.toList ∨ ∃ e, s'.page = (pageOf trace.toList).write e := by
  cases carries_of_step hs with
  | nil i m => exact Or.inl rfl
  | concat i m l r b => exact Or.inl rfl
  | nest i m d level b => exact Or.inl rfl
  | _ => exact Or.inr ⟨_, page_push _ _ _ _⟩

theorem Run.within {w : Nat} {width : Width} {q : Command Int → Prop} {s s' : State}
    (hr : Run width q s s') (h : s'.page.Within w) : s.page.Within w := by
  induction hr with
  | refl s => exact h
  | next _ hs _ ih =>
      have hnext := ih h
      rcases page_of_step hs with hp | ⟨e, hp⟩
      · rwa [hp] at hnext
      · rw [hp] at hnext
        exact hnext.of_write

/-- The column is the width of the line that is being written, and no indentation is negative. -/
structure Aligned (s : State) : Prop where
  column_eq : s.column = s.page.current.text.byteWidth
  indent_nonneg : ∀ c ∈ s.stack, 0 ≤ c.indent

theorem aligned_start (d : Doc) (m : Mode) : Aligned ⟨[⟨0, m, d⟩], 0, #[]⟩ :=
  ⟨rfl, by simp⟩

theorem indentation_nonneg {level : Level} {indent column : Int} (hi : 0 ≤ indent)
    (hc : 0 ≤ column) : 0 ≤ level.indentation indent column := by
  unfold Level.indentation
  split <;> omega

theorem Aligned.write {stack stack' : List (Command Int)} {column : Int} {trace : Array Event}
    (h : Aligned ⟨stack, column, trace⟩) (e : Event) (he : ∀ i, e.newIndent? = some i → 0 ≤ i)
    (hstack : ∀ c ∈ stack', 0 ≤ c.indent) :
    Aligned ⟨stack', e.after column, trace.push e⟩ := by
  refine ⟨?_, hstack⟩
  rw [page_push]
  exact Page.byteWidth_current_write e h.column_eq he

theorem Aligned.step {width : Width} {c : Command Int} {rest : List (Command Int)} {column : Int}
    {trace : Array Event} {s' : State} (hd : c.doc.Consistent)
    (h : Aligned ⟨c :: rest, column, trace⟩)
    (hs : step width c ⟨rest, column, trace⟩ = .ok s') : Aligned s' := by
  obtain ⟨hc, hrest⟩ := List.forall_mem_cons.mp h.indent_nonneg
  cases carries_of_step hs with
  | nil i m => exact ⟨h.column_eq, hrest⟩
  | line i m =>
      refine h.write (.newline i) (fun j hj => ?_) hrest
      obtain rfl : i = j := Option.some.inj hj
      exact hc
  | breakParent i m => exact h.write .forced (fun j hj => by cases hj) hrest
  | text i m t k =>
      obtain rfl : k = t.byteWidth := hd
      exact h.write (.text t) (fun j hj => by cases hj) hrest
  | flat i f b k =>
      obtain rfl : k = f.byteWidth := hd
      exact h.write (.flat f) (fun j hj => by cases hj) hrest
  | broken i f b k =>
      refine h.write (.broken b i) (fun j hj => ?_) hrest
      obtain rfl : i = j := Option.some.inj hj
      exact hc
  | concat i m l r b =>
      refine ⟨h.column_eq, ?_⟩
      rw [List.forall_mem_cons, List.forall_mem_cons]
      exact ⟨hc, hc, hrest⟩
  | nest i m d level b =>
      have hcolumn : 0 ≤ column := by
        have e : column = (pageOf trace.toList).current.text.byteWidth := h.column_eq
        omega
      exact ⟨h.column_eq, List.forall_mem_cons.mpr ⟨indentation_nonneg hc hcolumn, hrest⟩⟩
  | group i m d b mode hmode =>
      exact h.write (.group mode) (fun j hj => by cases hj)
        (List.forall_mem_cons.mpr ⟨hc, hrest⟩)

end Renderer

end DocLayout
