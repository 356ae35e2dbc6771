import LineTags.Editor.Command

/-!
# What a user does

The user gives commands, chooses files, edits the text that is shown, and lets time pass. Text that is copied or cut leaves without its tags, and text that is pasted comes in without them, so no identifier is doubled by way of the clipboard. After each action everything happens that can happen without time passing.
-/

namespace LineTags

inductive Action
  | command (c : Command)
  /-- Selects a file in the list, or none. -/
  | choose (index : Option Nat)
  | closeReport
  /-- Types a text where the cursor stands. -/
  | type (t : Text)
  | insert (line column : Int) (t : Text)
  | erase (startLine startColumn endLine endColumn : Int)
  | moveCursor (line column : Int)
  | select (startLine startColumn endLine endColumn : Int)
  /-- Lets a key or the mouse go. -/
  | release
  | copy
  | cut
  | paste
  /-- Another program fills or empties the clipboard. -/
  | setClipboard (t : Option Text)
  | wait (milliseconds : Int)
  deriving DecidableEq

namespace Editor

/-- Copies the text that is selected, without its tags. -/
def copy (e : Editor) : Editor :=
  match e.shownWidget?.bind Widget.selectedText? with
  | some t => { e with clipboard := some (eraseTags t) }
  | none => e

def cut (e : Editor) : Editor := e.copy.updateShown Widget.deleteSelection

/-- Puts the clipboard, without its tags, in the place of the text that is selected. -/
def paste (e : Editor) : Editor :=
  match e.clipboard with
  | some t => e.updateShown fun w => w.deleteSelection.type (eraseTags t)
  | none => e

def act (a : Action) (e : Editor) : Except EditorFault Unit × Editor :=
  match a with
  | .command c => e.run c
  | .choose index => (.ok (), { e with selected := index }.followSelection)
  | .closeReport => (.ok (), { e with reports := e.reports.dropLast })
  | .type t => (.ok (), e.updateShown (Widget.type t))
  | .insert line column t => (.ok (), e.updateShown fun w => w.insertAt (w.offset line column) t)
  | .erase startLine startColumn endLine endColumn =>
    (.ok (), e.updateShown fun w => w.deleteBetween (w.offset startLine startColumn) (w.offset endLine endColumn))
  | .moveCursor line column => (.ok (), e.updateShown (Widget.setCursor line column))
  | .select startLine startColumn endLine endColumn =>
    (.ok (), e.updateShown (Widget.select startLine startColumn endLine endColumn))
  | .release => (.ok (), if e.shown.isSome then e.refreshStatus else e)
  | .copy => (.ok (), e.copy)
  | .cut => (.ok (), e.cut)
  | .paste => (.ok (), e.paste)
  | .setClipboard t => (.ok (), { e with clipboard := t })
  | .wait milliseconds => (.ok (), { e with now := e.now + milliseconds })

/-- Takes an action of the user, who answers the dialogs that it leads to. -/
def step (a : Action) (replies : List Reply) (e : Editor) : Except EditorFault Unit × Editor :=
  let (result, e) := { e with dialogs := [], replies }.act a
  (result, e.settle)

end Editor

end LineTags
