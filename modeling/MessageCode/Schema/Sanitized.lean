/-!
Sanitized content. A fixed family of wrapper messages carries texts that have been made safe for one
kind of use; fields of these types show the wrapped text, marked with its kind.
-/

namespace MessageCode

inductive SanitizedKind where
  | html
  | script
  | style
  | styleSheet
  | url
  | trustedResourceUrl
  deriving DecidableEq

namespace SanitizedKind

/-- In the order of their ordinals. -/
def all : List SanitizedKind := [.html, .script, .style, .styleSheet, .url, .trustedResourceUrl]

def package : String := "webutil.html.types"

/-- The small integer that stands for the kind at run time. -/
def ordinal : SanitizedKind → Int32
  | .html => 0
  | .script => 1
  | .style => 2
  | .styleSheet => 3
  | .url => 4
  | .trustedResourceUrl => 5

def ofOrdinal? (n : Int32) : Option SanitizedKind := all.find? fun kind => kind.ordinal = n

def messageStem : SanitizedKind → String
  | .html => "SafeHtmlProto"
  | .script => "SafeScriptProto"
  | .style => "SafeStyleProto"
  | .styleSheet => "SafeStyleSheetProto"
  | .url => "SafeUrlProto"
  | .trustedResourceUrl => "TrustedResourceUrlProto"

/-- What the names of the wrapped field and of the conversion are made of. -/
def fieldStem : SanitizedKind → String
  | .html => "safe_html"
  | .script => "safe_script"
  | .style => "safe_style"
  | .styleSheet => "safe_style_sheet"
  | .url => "safe_url"
  | .trustedResourceUrl => "trusted_resource_url"

def messageName (kind : SanitizedKind) : String := package ++ "." ++ kind.messageStem

/-- The kind that a wrapper message carries. -/
def ofMessage? (name : String) : Option SanitizedKind :=
  all.find? fun kind => kind.messageName = name

def wrappedField (kind : SanitizedKind) : String :=
  "private_do_not_access_or_else_" ++ kind.fieldStem ++ "_wrapped_value"

/-- The operation that turns a sanitized value into its wrapper message. -/
def toProtoMethod (kind : SanitizedKind) : String := "to_" ++ kind.fieldStem ++ "_proto"

def render : SanitizedKind → String
  | .html => "html"
  | .script => "js"
  | .style => "css"
  | .styleSheet => "css_sheet"
  | .url => "uri"
  | .trustedResourceUrl => "trusted_resource_uri"

end SanitizedKind

end MessageCode
