import RobotsTxt.Kind
import RobotsTxt.Text.Case

/-!
# Directives

The directives that crawlers know, with their canonical spelling and a short description. A name is
looked up in lower case.

* `Directive.known`: all of them, standard ones first, each group sorted by name.
* `Directive.lookup?`: the directive that a name stands for.
* `Directive.kindOf`: the kind of a line with a given name.
-/

namespace RobotsTxt

/-- A directive that crawlers know. -/
structure Directive where
  /-- The canonical spelling of the name. -/
  name : Text
  kind : Kind
  /-- A short description in Markdown. -/
  doc : Text
  /-- Set for a directive outside the standard, which only some crawlers honor. -/
  nonStandard : Bool
  deriving Repr, DecidableEq

namespace Directive

/-- All known directives, standard ones first, each group sorted by name. -/
def known : List Directive :=
  [{ name := utf8 "Allow", kind := .rule, nonStandard := false
     doc := utf8 <| "Allows crawling of paths starting with the given prefix. `*` matches any " ++
       "sequence of characters and `$` anchors the end of the path." },
   { name := utf8 "Disallow", kind := .rule, nonStandard := false
     doc := utf8 <| "Disallows crawling of paths starting with the given prefix. An empty " ++
       "value disallows nothing." },
   { name := utf8 "Sitemap", kind := .sitemap, nonStandard := false
     doc := utf8 <| "Absolute URL of a sitemap. Sitemap lines apply to the whole file, " ++
       "not to a group." },
   { name := utf8 "User-agent", kind := .userAgent, nonStandard := false
     doc := utf8 <| "Starts a group of rules for the named crawler. The product token is " ++
       "matched case-insensitively; `*` matches any crawler without a more specific group." },
   { name := utf8 "Clean-param", kind := .extension, nonStandard := true
     doc := utf8 <| "Query parameters that do not change page content, optionally followed " ++
       "by a path prefix." },
   { name := utf8 "Crawl-delay", kind := .crawlDelay, nonStandard := true
     doc := utf8 "Minimum number of seconds a crawler should wait between requests." },
   { name := utf8 "Host", kind := .extension, nonStandard := true
     doc := utf8 "Preferred host name of the site." },
   { name := utf8 "Noindex", kind := .extension, nonStandard := true
     doc := utf8 "Paths that should not be indexed." },
   { name := utf8 "Request-rate", kind := .extension, nonStandard := true
     doc := utf8 "Maximum rate of requests, written as `pages/seconds`." },
   { name := utf8 "Visit-time", kind := .extension, nonStandard := true
     doc := utf8 "UTC time window during which crawling is preferred, written as `HHMM-HHMM`." }]

/-- The known directive with a given name, up to lower case. -/
def lookup? (name : Text) : Option Directive :=
  known.find? fun d => d.name.lower == name.lower

/-- The kind of a line with a given name: that of the directive, or an extension. -/
def kindOf (name : Text) : Kind := ((lookup? name).map Directive.kind).getD .extension

/-- The canonical spelling of a name; an unknown name keeps its own. -/
def canonicalName (name : Text) : Text := ((lookup? name).map Directive.name).getD name

/-- The description of a directive as it is shown to a reader. -/
def markdown (d : Directive) : Text :=
  utf8 "**" ++ d.name ++ utf8 "**\n\n" ++ d.doc ++
    if d.nonStandard then utf8 "\n\n_Not part of RFC 9309; only some crawlers honor it._" else []

end Directive

end RobotsTxt
