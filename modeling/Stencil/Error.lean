/-!
What can go wrong between a template's name and its page, each failure with its cause, and the one place that
words it.
-/
namespace Stencil

/-- Why the file system refused. -/
inductive DiskFault where
  | missing
  | alreadyThere
  | notDirectory
  | isDirectory
  | nameTooLong
  | invalidName
  | notText
  | refused (reason : String)
  deriving DecidableEq

def DiskFault.message : DiskFault → String
  | missing => "No such file or directory (os error 2)"
  | alreadyThere => "File exists (os error 17)"
  | notDirectory => "Not a directory (os error 20)"
  | isDirectory => "Is a directory (os error 21)"
  | nameTooLong => "File name too long (os error 36)"
  | invalidName => "file name contained an unexpected NUL byte"
  | notText => "stream did not contain valid UTF-8"
  | refused reason => reason

/-- Where in the sources something stands: the tag, the template that holds it, and its line. -/
structure Site where
  tag : String
  file : String
  line : Nat
  deriving DecidableEq

def Site.text (site : Site) : String :=
  "tag(" ++ site.tag ++ ") file(" ++ site.file ++ ":" ++ toString site.line ++ ")"

inductive TemplateError where
  /-- A tag that no handler is bound to. -/
  | unknownTag (site : Site)
  /-- A closing tag that does not close the innermost open one, which is the site's tag. -/
  | tagMismatch (site : Site) (found : String)
  | unclosedTag (site : Site)
  | missingParameter (site : Site) (reason : String)
  | parameterType (site : Site) (reason : String)
  /-- Tags that do not fit together. -/
  | structural (site : Site) (reason : String)
  /-- A template that needs itself; the chain leads from the first template to the repeated one. -/
  | cycle (site : Site) (chain : List String)
  | artifactMissing (name : String)
  | pathEscape (name root : String)
  | templateNotFound (name path : String)
  | artifactSyntax (template reason : String)
  | execution (template reason : String)
  /-- Parameters that no value can stand for. -/
  | serialize (reason : String)
  | io (fault : DiskFault)
  deriving DecidableEq

namespace TemplateError

/-- The place in the sources, for errors that have one. -/
def site? : TemplateError → Option Site
  | unknownTag site | tagMismatch site _ | unclosedTag site | missingParameter site _
  | parameterType site _ | structural site _ | cycle site _ => some site
  | _ => none

def message : TemplateError → String
  | unknownTag site => site.text ++ ": unknown tag"
  | tagMismatch site found =>
    site.text ++ ": mismatch opening/closing tag, expected \x7b/" ++ site.tag ++ "\x7d found \x7b/" ++
      found ++ "\x7d"
  | unclosedTag site => site.text ++ ": not closed"
  | missingParameter site reason | parameterType site reason | structural site reason =>
    site.text ++ ": " ++ reason
  | cycle site chain => site.text ++ ": template cycle " ++ " -> ".intercalate chain
  | artifactMissing name => "Can't load template artifact '" ++ name ++ "'"
  | pathEscape name root => "Template '" ++ name ++ "' out of the safe path '" ++ root ++ "'"
  | templateNotFound name path => "Template '" ++ name ++ "' not found at '" ++ path ++ "'"
  | artifactSyntax template reason => "Artifact syntax error in '" ++ template ++ "': " ++ reason
  | execution template reason => "Execution error in '" ++ template ++ "': " ++ reason
  | serialize reason => "Parameter serialization error: " ++ reason
  | io fault => "IO error: " ++ fault.message

end TemplateError

end Stencil
