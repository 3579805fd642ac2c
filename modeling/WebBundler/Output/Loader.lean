import WebBundler.Text.Split
set_option autoImplicit false

/-!
# Output: the loader

Every build of a directory writes the loader, a script for browsers.  It keeps the wrapped
modules that have been registered, runs each when it is first required, and fetches those that
are missing.
-/

namespace WebBundler.Loader

/-- The file of the loader. -/
def fileName : String := "cube.js"

/-- The lines of the built-in loader. -/
def lines : List String := [
  "(function (global) \x7b",
  "  var registry = \x7b\x7d;",
  "  var cache = \x7b\x7d;",
  "  var base = '';",
  "",
  "  function require(name) \x7b",
  "    if (cache.hasOwnProperty(name)) \x7b",
  "      return cache[name].exports;",
  "    \x7d",
  "    var entry = registry[name];",
  "    if (!entry) \x7b",
  "      throw new Error('[cube] module not registered: ' + name);",
  "    \x7d",
  "    var module = \x7b exports: \x7b\x7d \x7d;",
  "    cache[name] = module;",
  "    entry.factory.call(global, module, module.exports, require, load, \x7b env: \x7b\x7d \x7d, global);",
  "    return module.exports;",
  "  \x7d",
  "",
  "  function load(names, cb) \x7b",
  "    if (typeof names === 'string') \x7b",
  "      names = [names];",
  "    \x7d",
  "    var missing = names.filter(function (name) \x7b",
  "      return !registry[name];",
  "    \x7d);",
  "    var left = missing.length;",
  "    function done() \x7b",
  "      cb && cb.apply(global, names.map(require));",
  "    \x7d",
  "    if (!left) \x7b",
  "      return done();",
  "    \x7d",
  "    missing.forEach(function (name) \x7b",
  "      var script = document.createElement('script');",
  "      script.src = base + name.replace(/^\\w+:/, '');",
  "      script.onload = function () \x7b",
  "        if (--left === 0) \x7b",
  "          done();",
  "        \x7d",
  "      \x7d;",
  "      document.head.appendChild(script);",
  "    \x7d);",
  "  \x7d",
  "",
  "  function Cube(name, deps, factory) \x7b",
  "    if (!registry[name]) \x7b",
  "      registry[name] = \x7b deps: deps, factory: factory \x7d;",
  "    \x7d",
  "  \x7d",
  "",
  "  Cube.init = function (options) \x7b",
  "    base = (options && options.base) || '';",
  "  \x7d;",
  "  Cube.use = load;",
  "  Cube.require = require;",
  "",
  "  global.Cube = Cube;",
  "\x7d)(typeof window !== 'undefined' ? window : this);"]

/-- The built-in loader, each line with its end. -/
def text : String := Text.joinText "\n" lines ++ "\n"

end WebBundler.Loader
