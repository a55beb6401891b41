/-
  Slideshow.Scene.Reference

  How scripts refer to elements of a diagram: by id, with or without a number sign.
-/
import Slideshow.Text.Blank

namespace Slideshow

/-- The id that a reference names: blanks around it and one number sign do not count. -/
def elementId (target : String) : String :=
  match Text.trim target.toList with
  | '#' :: id => String.ofList id
  | id => String.ofList id

end Slideshow
