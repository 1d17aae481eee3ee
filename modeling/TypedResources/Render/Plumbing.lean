/-!
The members that every generated class has: access to the resource manager and the overloads that
look up strings, objects and streams.
-/

namespace TypedResources.Plumbing

structure Style where
  className : String
  resourceName : String
  isInstance : Bool
  marksNullability : Bool
  deriving DecidableEq, Repr

namespace Style

/-- The modifier of members that belong to the class itself. -/
def shared (s : Style) : String := if s.isInstance then "" else "static "

end Style

def notNullMark : String :=
  "        [return: global::System.Diagnostics.CodeAnalysis" ++
    ".NotNullIfNotNullAttribute(\"defaultValue\")]"

def declare (s : Style) (signature : String) : List String :=
  ["        public " ++ s.shared ++ signature]

/-- A member whose result is not null when its default is not. -/
def declareGuarded (s : Style) (signature : String) : List String :=
  (if s.marksNullability then [notNullMark] else []) ++ declare s signature

def calls (call : String) : List String := ["            => " ++ call ++ ";", ""]

def body (lines : List String) : List String :=
  ["        \x7b"] ++ lines.map (fun l => if l = "" then "" else "            " ++ l) ++
    ["        \x7d", ""]

def culture : String := "global::System.Globalization.CultureInfo?"

def managerLines (s : Style) : List String :=
  ["",
    "        /// <summary>",
    "        ///   Returns the cached ResourceManager instance used by this class.",
    "        /// </summary>",
    "        [global::System.ComponentModel.EditorBrowsableAttribute" ++
      "(global::System.ComponentModel.EditorBrowsableState.Advanced)]"] ++
  declare s "global::System.Resources.ResourceManager ResourceManager" ++
  body
    ["get",
      "\x7b",
      "    if (resourceMan is null)",
      "    \x7b",
      "        resourceMan = new global::System.Resources.ResourceManager(\"" ++ s.resourceName ++
        "\", typeof(" ++ s.className ++ ").Assembly);",
      "    \x7d",
      "",
      "    return resourceMan;",
      "\x7d"]

def cultureLines (s : Style) : List String :=
  ["        /// <summary>",
    "        ///   Overrides the current thread's CurrentUICulture property for all",
    "        ///   resource lookups using this strongly typed resource class.",
    "        /// </summary>",
    "        [System.ComponentModel.EditorBrowsableAttribute" ++
      "(System.ComponentModel.EditorBrowsableState.Advanced)]"] ++
  declare s (culture ++ " Culture \x7b get; set; \x7d") ++ [""]

def objectLines (s : Style) : List String :=
  declareGuarded s ("object? GetObject(" ++ culture ++
    " culture, string name, object? defaultValue)") ++
  body
    ["culture ??= Culture;",
      "object? obj = ResourceManager.GetObject(name, culture);",
      "if (obj == null)",
      "\x7b",
      "    return defaultValue;",
      "\x7d",
      "",
      "return obj;"] ++
  declare s ("object? GetObject(" ++ culture ++ " culture, string name)") ++
  calls "GetObject(culture: culture, name: name, defaultValue: null)" ++
  declare s "object? GetObject(string name)" ++
  calls "GetObject(culture: null, name: name, defaultValue: null)" ++
  declareGuarded s "object? GetObject(string name, object? defaultValue)" ++
  calls "GetObject(culture: null, name: name, defaultValue: defaultValue)"

def streamLines (s : Style) : List String :=
  declare s "global::System.IO.Stream? GetStream(string name)" ++
  calls "GetStream(culture: null, name: name)" ++
  declare s ("global::System.IO.Stream? GetStream(" ++ culture ++ " culture, string name)") ++
  calls "ResourceManager.GetStream(name, culture ?? Culture)"

/-- The end of a lookup: the found text is formatted when there are arguments. -/
def formatFound : List String :=
  ["if (args != null)",
    "\x7b",
    "    return string.Format(culture, str, args);",
    "\x7d",
    "else",
    "\x7b",
    "    return str;",
    "\x7d"]

def stringLines (s : Style) : List String :=
  declare s ("string? GetString(" ++ culture ++ " culture, string name)") ++
  calls "GetString(culture: culture, name: name, args: null)" ++
  declare s ("string? GetString(" ++ culture ++
    " culture, string name, params object?[]? args)") ++
  body
    (["culture ??= Culture;",
      "string? str = ResourceManager.GetString(name, culture);",
      "if (str == null)",
      "\x7b",
      "    return null;",
      "\x7d",
      ""] ++ formatFound) ++
  declare s "string? GetString(string name, params object?[]? args)" ++
  calls "GetString(culture: null, name: name, args: args)" ++
  declareGuarded s "string? GetString(string name, string? defaultValue)" ++
  calls "GetStringWithDefault(culture: null, name: name, defaultValue: defaultValue, args: null)" ++
  declare s "string? GetString(string name)" ++
  calls "GetStringWithDefault(culture: null, name: name, defaultValue: null, args: null)"

def defaultedLines (s : Style) : List String :=
  declareGuarded s ("string? GetStringWithDefault(" ++ culture ++
    " culture, string name, string? defaultValue)") ++
  calls ("GetStringWithDefault(culture: culture, name: name, " ++
    "defaultValue: defaultValue, args: null)") ++
  declareGuarded s ("string? GetStringWithDefault(" ++ culture ++
    " culture, string name, string? defaultValue, params object?[]? args)") ++
  body
    (["culture ??= Culture;",
      "string? str = ResourceManager.GetString(name, culture);",
      "if (str == null)",
      "\x7b",
      "    if (defaultValue == null || args == null)",
      "    \x7b",
      "        return defaultValue;",
      "    \x7d",
      "    else",
      "    \x7b",
      "        return string.Format(culture, defaultValue, args);",
      "    \x7d",
      "\x7d",
      ""] ++ formatFound) ++
  declareGuarded s ("string? GetStringWithDefault(string name, " ++
    "string? defaultValue, params object?[]? args)") ++
  calls "GetStringWithDefault(culture: null, name: name, defaultValue: defaultValue, args: args)" ++
  declareGuarded s "string? GetStringWithDefault(string name, string? defaultValue)" ++
  calls "GetStringWithDefault(culture: null, name: name, defaultValue: defaultValue, args: null)"

def constructorLines (s : Style) : List String :=
  ["",
    "        public " ++ s.className ++ "(" ++ culture ++ " culture)",
    "        \x7b",
    "            Culture = culture;",
    "        \x7d"]

def lines (s : Style) : List String :=
  (if s.isInstance then constructorLines s else []) ++ managerLines s ++ cultureLines s ++
    objectLines s ++ streamLines s ++ stringLines s ++ defaultedLines s

end TypedResources.Plumbing
