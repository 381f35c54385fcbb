/-!
How a renderer of files is set up.
-/
namespace Stencil

structure Settings where
  /-- The folder of the templates. -/
  root : String := "templates"
  /-- The folder for artifacts; without it they are kept in memory only. -/
  cacheDir : Option String := none
  /-- The extension of template files. -/
  extension : String := "tpl"
  /-- Whether blanks and byte order marks at the ends of artifacts are taken off. -/
  strip : Bool := true
  /-- Whether callers that need the same template wait for one compilation. -/
  singleFlight : Bool := true

end Stencil
