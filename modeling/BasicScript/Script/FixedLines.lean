/-!
# The fixed parts of a generated program

The lines around the body: what the program prints, reads and draws with, for each of the two
targets, and what both targets share.
-/

namespace BasicScript.Script

def headerLines : List String :=
  ["// Generated by QBasic Nexus",
   "'use strict';"]

/-- Console, keyboard and files on Node: over its standard streams and its file system. -/
def nodeLines : List String :=
  ["const readline = require('readline');",
   "const _fs = require('fs');",
   "const rl = readline.createInterface(\x7b input: process.stdin, output: process.stdout, " ++
    "terminal: false \x7d);",
   "const _lineQueue = [];",
   "const _lineWaiters = [];",
   "let _stdinClosed = false;",
   "rl.on('line', line => \x7b",
   "  if (_lineWaiters.length > 0) _lineWaiters.shift()(line);",
   "  else _lineQueue.push(line);",
   "\x7d);",
   "rl.on('close', () => \x7b",
   "  _stdinClosed = true;",
   "  while (_lineWaiters.length > 0) _lineWaiters.shift()('');",
   "\x7d);",
   "const _tty = Boolean(process.stdout.isTTY);",
   "",
   "function _print(text, newline) \x7b",
   "  if (newline) console.log(text);",
   "  else process.stdout.write(String(text));",
   "\x7d",
   "",
   "function _input(prompt) \x7b",
   "  process.stdout.write(String(prompt));",
   "  if (_lineQueue.length > 0) return Promise.resolve(_lineQueue.shift());",
   "  if (_stdinClosed) return Promise.resolve('');",
   "  return new Promise(resolve => _lineWaiters.push(resolve));",
   "\x7d",
   "",
   "function _cls() \x7b",
   "  if (_tty) console.clear();",
   "\x7d",
   "",
   "function _locate(row, col) \x7b",
   "  if (row !== undefined && row !== null) _cursorRow = row;",
   "  if (col !== undefined && col !== null) _cursorCol = col;",
   "  if (_tty) process.stdout.write(`\\x1b[$\x7b_cursorRow\x7d;$\x7b_cursorCol\x7dH`);",
   "\x7d",
   "",
   "const _ansiColors = [0, 4, 2, 6, 1, 5, 3, 7, 8, 12, 10, 14, 9, 13, 11, 15];",
   "function _color(fg, bg) \x7b",
   "  if (!_tty) return;",
   "  if (fg !== undefined && fg !== null && fg >= 0) " ++
    "process.stdout.write(`\\x1b[38;5;$\x7b_ansiColors[fg % 16]\x7dm`);",
   "  if (bg !== undefined && bg !== null && bg >= 0) " ++
    "process.stdout.write(`\\x1b[48;5;$\x7b_ansiColors[bg % 16]\x7dm`);",
   "\x7d",
   "",
   "function _sound(freq, duration) \x7b",
   "  const ms = Math.floor((Math.max(0, duration || 0) / 18.2) * 1000);",
   "  if (_tty) process.stdout.write('\\x07');",
   "  return _sleep(ms);",
   "\x7d",
   "",
   "function _beep() \x7b",
   "  return _sound(800, 1.82);",
   "\x7d",
   "",
   "function _play(commands) \x7b",
   "  return Promise.resolve();",
   "\x7d",
   "",
   "function _screen(mode) \x7b",
   "  _screenMode = mode;",
   "\x7d",
   "",
   "function _width(cols, rows) \x7b",
   "  if (cols !== undefined && cols !== null) _screenWidth = cols;",
   "  if (rows !== undefined && rows !== null) _screenHeight = rows;",
   "\x7d",
   "",
   "function _title(text) \x7b",
   "  if (_tty) process.stdout.write(`\\x1b]0;$\x7btext\x7d\\x07`);",
   "\x7d",
   "",
   "async function _pset(x, y, color) \x7b\x7d",
   "async function _preset(x, y, color) \x7b\x7d",
   "async function _line(x1, y1, x2, y2, color, box, fill) \x7b\x7d",
   "async function _circle(x, y, r, color) \x7b\x7d",
   "async function _get(x1, y1, x2, y2, buffer) \x7b\x7d",
   "async function _put(x, y, buffer, action) \x7b\x7d",
   "function _printstring(x, y, text) \x7b",
   "  _locate(y, x);",
   "  _print(text, false);",
   "\x7d",
   "function _putimage() \x7b\x7d",
   "function _freeimage(id) \x7b\x7d",
   "function _newimage(w, h, mode) \x7b return -1; \x7d",
   "function _loadimage(file, mode) \x7b return -1; \x7d",
   "function _copyimage(id) \x7b return -1; \x7d",
   "function _mouseinput() \x7b return 0; \x7d",
   "function _mousex() \x7b return 0; \x7d",
   "function _mousey() \x7b return 0; \x7d",
   "function _mousebutton(n) \x7b return 0; \x7d",
   "function _mousewheel() \x7b return 0; \x7d",
   "function _mousehide() \x7b\x7d",
   "function _mouseshow(style) \x7b\x7d",
   "function _keyhit() \x7b return 0; \x7d",
   "function _keydown(code) \x7b return 0; \x7d",
   "function _keyclear() \x7b\x7d",
   "function _display() \x7b\x7d",
   "function _sndopen(file, flags) \x7b return -1; \x7d",
   "function _sndplay(id) \x7b\x7d",
   "function _sndloop(id) \x7b\x7d",
   "function _sndclose(id) \x7b\x7d",
   "function _inkeyHost() \x7b return ''; \x7d",
   "function _hostError(message) \x7b\x7d",
   "",
   "let _lastLimitTime = Date.now();",
   "async function _limit(fps) \x7b",
   "  const frame = 1000 / fps;",
   "  const elapsed = Date.now() - _lastLimitTime;",
   "  if (elapsed < frame) await _sleep(frame - elapsed);",
   "  _lastLimitTime = Date.now();",
   "\x7d",
   "",
   "function _vfsLoad(name) \x7b",
   "  try \x7b",
   "    return _fs.readFileSync(name, 'utf8');",
   "  \x7d catch (e) \x7b",
   "    return null;",
   "  \x7d",
   "\x7d",
   "",
   "function _vfsSave(name, text, append) \x7b",
   "  if (append) _fs.appendFileSync(name, text);",
   "  else _fs.writeFileSync(name, text);",
   "\x7d",
   "",
   "const _open = async (filename, mode, filenum) => _fileOpen(filename, mode, filenum);",
   "const _close = async filenum => _fileClose(filenum);",
   "const _printFileFunc = async (filenum, text) => _filePrint(filenum, text);",
   "const _inputFileFunc = async filenum => _fileInput(filenum);"]

/-- The same in a browser: bound to the host page, with inert stand-ins for what it lacks. -/
def webLines : List String :=
  ["const _rt = (typeof window !== 'undefined' && window.runtime) || \x7b\x7d;",
   "function _bind(name, fallback) \x7b",
   "  const fn = _rt[name];",
   "  return typeof fn === 'function' ? fn.bind(_rt) : fallback;",
   "\x7d",
   "",
   "const _print = _bind('print', (text, newline) => console.log(text));",
   "const _input = _bind('input', prompt => Promise.resolve(typeof window !== 'undefined' " ++
    "&& window.prompt ? window.prompt(prompt) || '' : ''));",
   "const _cls = _bind('cls', () => \x7b\x7d);",
   "const _locate = _bind('locate', (row, col) => \x7b",
   "  if (row !== undefined && row !== null) _cursorRow = row;",
   "  if (col !== undefined && col !== null) _cursorCol = col;",
   "\x7d);",
   "const _color = _bind('color', (fg, bg) => \x7b\x7d);",
   "const _beep = _bind('beep', async () => \x7b\x7d);",
   "const _sound = _bind('sound', async (freq, duration) => \x7b\x7d);",
   "const _play = _bind('play', async commands => \x7b\x7d);",
   "const _screen = _bind('screen', mode => \x7b _screenMode = mode; \x7d);",
   "const _width = _bind('width', (cols, rows) => \x7b",
   "  if (cols !== undefined && cols !== null) _screenWidth = cols;",
   "  if (rows !== undefined && rows !== null) _screenHeight = rows;",
   "\x7d);",
   "const _title = _bind('title', text => \x7b",
   "  if (typeof document !== 'undefined') document.title = String(text);",
   "\x7d);",
   "const _pset = _bind('pset', async () => \x7b\x7d);",
   "const _preset = _bind('preset', async () => \x7b\x7d);",
   "const _line = _bind('line', async () => \x7b\x7d);",
   "const _circle = _bind('circle', async () => \x7b\x7d);",
   "const _get = _bind('get', async () => \x7b\x7d);",
   "const _put = _bind('put', async () => \x7b\x7d);",
   "const _printstring = _bind('printstring', () => \x7b\x7d);",
   "const _putimage = _bind('putimage', () => \x7b\x7d);",
   "const _freeimage = _bind('freeimage', () => \x7b\x7d);",
   "const _newimage = _bind('newimage', () => -1);",
   "const _loadimage = _bind('loadimage', () => -1);",
   "const _copyimage = _bind('copyimage', () => -1);",
   "const _mouseinput = _bind('mouseinput', () => 0);",
   "const _mousex = _bind('mousex', () => 0);",
   "const _mousey = _bind('mousey', () => 0);",
   "const _mousebutton = _bind('mousebutton', () => 0);",
   "const _mousewheel = _bind('mousewheel', () => 0);",
   "const _mousehide = _bind('mousehide', () => \x7b\x7d);",
   "const _mouseshow = _bind('mouseshow', () => \x7b\x7d);",
   "const _keyhit = _bind('keyhit', () => 0);",
   "const _keydown = _bind('keydown', () => 0);",
   "const _keyclear = _bind('keyclear', () => \x7b\x7d);",
   "const _display = _bind('display', () => \x7b\x7d);",
   "const _limit = _bind('limit', async fps => \x7b\x7d);",
   "const _sndopen = _bind('sndopen', () => -1);",
   "const _sndplay = _bind('sndplay', () => \x7b\x7d);",
   "const _sndloop = _bind('sndloop', () => \x7b\x7d);",
   "const _sndclose = _bind('sndclose', () => \x7b\x7d);",
   "const _inkeyHost = _bind('inkey$', () => '');",
   "const _hostError = _bind('error', message => \x7b\x7d);",
   "",
   "const _vfs = \x7b\x7d;",
   "function _vfsLoad(name) \x7b",
   "  return Object.prototype.hasOwnProperty.call(_vfs, name) ? _vfs[name] : null;",
   "\x7d",
   "",
   "function _vfsSave(name, text, append) \x7b",
   "  _vfs[name] = (append && _vfsLoad(name) !== null ? _vfs[name] : '') + text;",
   "\x7d",
   "",
   "const _open = _bind('open', async (filename, mode, filenum) => _fileOpen(filename, " ++
    "mode, filenum));",
   "const _close = _bind('close', async filenum => _fileClose(filenum));",
   "const _printFileFunc = _bind('printFile', async (filenum, text) => _filePrint(filenum, text));",
   "const _inputFileFunc = _bind('inputFile', async filenum => _fileInput(filenum));"]

/-- What both targets share: data, arrays, files, searching. -/
def commonLines : List String :=
  ["function _sleep(ms) \x7b",
   "  return new Promise(resolve => setTimeout(resolve, Math.max(0, ms || 0)));",
   "\x7d",
   "",
   "let _cursorRow = 1, _cursorCol = 1;",
   "let _screenMode = 0;",
   "let _screenWidth = 80, _screenHeight = 25;",
   "",
   "function _read() \x7b",
   "  if (_DATA_PTR >= _DATA.length) throw new Error('Out of DATA');",
   "  return _DATA[_DATA_PTR++];",
   "\x7d",
   "",
   "function _restore() \x7b",
   "  _DATA_PTR = 0;",
   "\x7d",
   "",
   "let _rndSeed = Date.now();",
   "function _randomize(seed) \x7b",
   "  _rndSeed = seed !== undefined ? seed : Date.now();",
   "\x7d",
   "",
   "function _makeArray(init, ...dims) \x7b",
   "  if (dims.length === 0) return typeof init === 'function' ? init() : init;",
   "  const rest = dims.slice(1);",
   "  return Array.from(\x7b length: Math.max(0, Math.floor(dims[0])) + 1 \x7d, () => " ++
    "_makeArray(init, ...rest));",
   "\x7d",
   "",
   "function _redimPreserve(old, init, ...dims) \x7b",
   "  const fresh = _makeArray(init, ...dims);",
   "  if (!Array.isArray(old)) return fresh;",
   "  const n = Math.min(old.length, fresh.length);",
   "  for (let i = 0; i < n; i++) \x7b",
   "    fresh[i] = dims.length > 1 ? _redimPreserve(old[i], init, ...dims.slice(1)) : old[i];",
   "  \x7d",
   "  return fresh;",
   "\x7d",
   "",
   "function _writeValue(v) \x7b",
   "  return typeof v === 'string' ? '\"' + v + '\"' : String(v);",
   "\x7d",
   "",
   "let _inkeyBuffer = '';",
   "function INKEY() \x7b",
   "  const host = _inkeyHost();",
   "  if (host) return host;",
   "  const key = _inkeyBuffer;",
   "  _inkeyBuffer = '';",
   "  return key;",
   "\x7d",
   "",
   "const _files = \x7b\x7d;",
   "let _nextFileNum = 1;",
   "",
   "function _fileOpen(filename, mode, filenum) \x7b",
   "  const existing = _vfsLoad(filename);",
   "  if (mode === 'INPUT' && existing === null) throw new Error('File not found: ' + filename);",
   "  const text = mode === 'INPUT' || mode === 'BINARY' || mode === 'RANDOM' ? existing || " ++
    "'' : '';",
   "  const lines = text === '' ? [] : text.replace(/\\r\\n/g, '\\n').replace(/\\n$/, " ++
    "'').split('\\n');",
   "  _files[filenum] = \x7b filename, mode, data: lines, out: '', pos: 0, eof: " ++
    "lines.length === 0 \x7d;",
   "\x7d",
   "",
   "function _fileClose(filenum) \x7b",
   "  const f = _files[filenum];",
   "  if (!f) return;",
   "  if (f.mode === 'OUTPUT' || f.mode === 'APPEND') _vfsSave(f.filename, f.out, f.mode " ++
    "=== 'APPEND');",
   "  delete _files[filenum];",
   "\x7d",
   "",
   "function _filePrint(filenum, text) \x7b",
   "  const f = _files[filenum];",
   "  if (!f) throw new Error('Bad file number: ' + filenum);",
   "  f.out += text;",
   "\x7d",
   "",
   "function _fileInput(filenum) \x7b",
   "  const f = _files[filenum];",
   "  if (!f) throw new Error('Bad file number: ' + filenum);",
   "  if (f.pos >= f.data.length) throw new Error('Input past end of file');",
   "  const value = f.data[f.pos++];",
   "  f.eof = f.pos >= f.data.length;",
   "  return value;",
   "\x7d",
   "",
   "async function _closeAll() \x7b",
   "  for (const n of Object.keys(_files)) await _close(Number(n));",
   "\x7d",
   "",
   "function INSTR(start, str, find) \x7b",
   "  if (find === undefined) \x7b",
   "    find = str;",
   "    str = start;",
   "    start = 1;",
   "  \x7d",
   "  const idx = String(str).indexOf(find, start - 1);",
   "  return idx >= 0 ? idx + 1 : 0;",
   "\x7d",
   "",
   "const TRUE = -1;",
   "const FALSE = 0;"]

/-- The lines in front of the body. -/
def bodyOpening : List String :=
  ["(async () => \x7b",
   "try \x7b"]

/-- The lines behind the body, up to the exit code. -/
def catchLines : List String :=
  ["\x7d catch (e) \x7b",
   "  if (e === 'STOP') \x7b",
   "    _print('Program Stopped', true);",
   "  \x7d else if (e !== 'END') \x7b",
   "    const message = e && e.message ? e.message : String(e);",
   "    console.error('Runtime Error:', message);",
   "    _hostError(message);"]

/-- The lines up to the closing of the input. -/
def finallyLines : List String :=
  ["  \x7d",
   "\x7d finally \x7b"]

def closingLines : List String :=
  ["\x7d",
   "\x7d)();"]

/-- The exit code of a failed program on Node. -/
def exitCodeLine : String := "    process.exitCode = 1;"

/-- The closing of the input on Node. -/
def closeInputLine : String := "  rl.close();"

end BasicScript.Script
